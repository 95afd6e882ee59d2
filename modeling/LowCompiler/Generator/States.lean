import LowCompiler.Generator.Consolidate

/-!
# The states of the parser

`gather_states` of the parser generator. Its array of states grows by the
saturation of the lead arrays under `successors`, and every state gets the rows
of its groups of leads.
-/

namespace Low

variable {R : Type}

/-- What to do on the tokens of a set: reduce by a production, or shift and go to a state. -/
structure TokenAction (R : Type) where
  tokens : TokenSet
  production : Option (Lr.Production R)
  state : Nat
  deriving DecidableEq

structure RuleAction (R : Type) where
  rule : R
  state : Nat
  deriving DecidableEq

structure State (R : Type) where
  leads : List (Lead R)
  tokenActions : List (TokenAction R)
  ruleActions : List (RuleAction R)
  deriving DecidableEq

def State.new (leads : List (Lead R)) : State R := ⟨leads, [], []⟩

def State.addTokenAction (action : TokenAction R) (s : State R) : State R :=
  { s with tokenActions := s.tokenActions ++ [action] }

def State.addRuleAction (action : RuleAction R) (s : State R) : State R :=
  { s with ruleActions := s.ruleActions ++ [action] }

def reduceAction (lead : Lead R) : TokenAction R := ⟨lead.terminals, some ⟨lead.rule, lead.variant⟩, 0⟩

/-- The row for going to a state on the symbol of a group of leads. -/
def State.addSymbolAction (symbol : Option (Symbol Token R)) (state : Nat) : State R → State R :=
  match symbol with
  | some (.nonterminal rule) => .addRuleAction ⟨rule, state⟩
  | some (.terminal token) => .addTokenAction ⟨tokenSetInsert tokenSetInit token, none, state⟩
  | none => .addTokenAction ⟨tokenSetInsert tokenSetInit .INVALID, none, state⟩

variable [LinearOrder R] [Fintype R]

/-- The inner loop over the leads of a state: for every symbol after a dot that is not `handled`
yet, the leads that have it there. -/
def groupLeads (G : Grammar R) :
    List (Lead R) → List (Option (Symbol Token R)) → List (Option (Symbol Token R) × List (Lead R))
  | [], _ => []
  | base :: leads, handled =>
    let baseSymbol := leadGetSymbol G base base.position
    if baseSymbol ∈ handled then groupLeads G leads handled
    else (baseSymbol, (base :: leads).filter fun lead => leadGetSymbol G lead lead.position = baseSymbol) ::
      groupLeads G leads (baseSymbol :: handled)

/-- The search for a state with the given leads; a new state is appended when there is none. -/
def findState (states : List (State R)) (leads : List (Lead R)) : List (State R) × Nat :=
  let index := states.findIdx fun s => leads = s.leads
  if index < states.length then (states, index) else (states ++ [.new leads], states.length)

def gatherGroup (G : Grammar R) (fuel i : Nat) (states : List (State R))
    (group : Option (Symbol Token R) × List (Lead R)) : Except Abort (List (State R)) := do
  let reduceLeads := group.2.filter fun lead => (leadGetSymbol G lead lead.position).isNone
  let shiftLeads := (group.2.filter fun lead => (leadGetSymbol G lead lead.position).isSome).map Lead.advance
  let states := reduceLeads.foldl (fun states lead => states.modify i (.addTokenAction (reduceAction lead))) states
  assertion (0 < shiftLeads.length || 0 < reduceLeads.length) .syntaxError
  assertion (decide (0 < shiftLeads.length) != decide (0 < reduceLeads.length)) .shiftReduceConflict
  assertion (reduceLeads.length ≤ 1) .reduceReduceConflict
  if 0 < shiftLeads.length then
    let closure ← gatherLeads G fuel shiftLeads 0 shiftLeads.length
    let (states, stateIndex) := findState states (consolidateLeads closure)
    .ok (states.modify i (.addSymbolAction group.1 stateIndex))
  else .ok states

def gatherState (G : Grammar R) (fuel : Nat) (states : List (State R)) (i : Nat) :
    Except Abort (List (State R)) :=
  match states[i]? with
  | some state => (groupLeads G state.leads []).foldlM (gatherGroup G fuel i) states
  | none => .error .outOfBounds

def gatherStates (G : Grammar R) (leadFuel : Nat) :
    Nat → List (State R) → Nat → Nat → Except Abort (List (State R))
  | 0, _, _, _ => .error .outOfFuel
  | fuel + 1, states, index, length => do
    assertion (index < states.length) .outOfBounds
    assertion (index + length ≤ states.length) .outOfBounds
    let firstNew := states.length
    let states ← (List.range' index length).foldlM (gatherState G leadFuel) states
    if firstNew < states.length then gatherStates G leadFuel fuel states firstNew (states.length - firstNew)
    else .ok states

def rootLead (G : Grammar R) : Lead R := ⟨G.root, 0, 0, tokenSetInsert tokenSetInit .EOF⟩

/-- All states of the parser, as `main` computes them. -/
def parserStates (G : Grammar R) (fuel : Nat) : Except Abort (List (State R)) := do
  let closure ← gatherLeads G fuel [rootLead G] 0 1
  gatherStates G fuel fuel [.new (consolidateLeads closure)] 0 1

end Low
