import LowCompiler.Lexer.Token
import Mathlib.Data.Fintype.EquivFin

/-!
# Token sets

`token_set_t` is an array of 32-bit words with one bit for each token. The
words stand side by side in one bit vector here; bits past the last token are
never set.
-/

namespace Low

structure TokenSet where
  bits : BitVec MAX_TOKENS
  deriving DecidableEq

instance : Finite TokenSet :=
  Finite.of_injective (fun s => s.bits.toFin) (by
    rintro ⟨a⟩ ⟨b⟩ same
    exact congrArg TokenSet.mk (BitVec.toFin_inj.mp same))

def tokenSetInit : TokenSet := ⟨BitVec.ofNat MAX_TOKENS 0⟩

def tokenSetInsert (set : TokenSet) (token : Token) : TokenSet :=
  ⟨set.bits ||| BitVec.twoPow MAX_TOKENS token.toNat⟩

def tokenSetMerge (set other : TokenSet) : TokenSet := ⟨set.bits ||| other.bits⟩

def TokenSet.words (set : TokenSet) : List Nat :=
  (List.range ((MAX_TOKENS + 31) / 32)).map fun i => (set.bits.extractLsb' (32 * i) 32).toNat

def compareTokenSets (s1 s2 : TokenSet) : Ordering := compare s1.words s2.words

instance : Membership Token TokenSet := ⟨fun set token => set.bits.getLsbD token.toNat = true⟩

instance (token : Token) (set : TokenSet) : Decidable (token ∈ set) :=
  inferInstanceAs (Decidable (set.bits.getLsbD token.toNat = true))

namespace TokenSet

theorem mem_def {token : Token} {set : TokenSet} : token ∈ set ↔ set.bits.getLsbD token.toNat = true := Iff.rfl

@[simp] theorem not_mem_init (token : Token) : token ∉ tokenSetInit := by
  simp [mem_def, tokenSetInit]

@[simp] theorem mem_insert {set : TokenSet} {s t : Token} : t ∈ tokenSetInsert set s ↔ t ∈ set ∨ t = s := by
  simp only [mem_def, tokenSetInsert, BitVec.getLsbD_or, BitVec.getLsbD_twoPow, Bool.or_eq_true,
    Bool.and_eq_true, decide_eq_true_eq]
  constructor
  · rintro (old | ⟨_, same⟩)
    · exact Or.inl old
    · exact Or.inr (Token.toNat_injective same.symm)
  · rintro (old | rfl)
    · exact Or.inl old
    · exact Or.inr ⟨t.toNat_lt, rfl⟩

@[simp] theorem mem_merge {a b : TokenSet} {t : Token} : t ∈ tokenSetMerge a b ↔ t ∈ a ∨ t ∈ b := by
  simp [mem_def, tokenSetMerge]

theorem ext {a b : TokenSet} (same : ∀ t : Token, t ∈ a ↔ t ∈ b) : a = b := by
  obtain ⟨a⟩ := a
  obtain ⟨b⟩ := b
  refine congrArg TokenSet.mk (BitVec.eq_of_getLsbD_eq fun i bound => ?_)
  have bit := same (Token.ofNat i)
  simp only [mem_def, Token.toNat_ofNat bound] at bit
  exact Bool.eq_iff_iff.mpr bit

/-- The tokens of a set, in the order in which the generator prints their rows. -/
def tokens (set : TokenSet) : List Token :=
  ((List.range MAX_TOKENS).filter fun i => set.bits.getLsbD i).map Token.ofNat

theorem mem_tokens {set : TokenSet} {t : Token} : t ∈ set.tokens ↔ t ∈ set := by
  simp only [tokens, List.mem_map, List.mem_filter, List.mem_range, mem_def]
  constructor
  · rintro ⟨i, ⟨bound, bit⟩, rfl⟩
    rwa [Token.toNat_ofNat bound]
  · exact fun bit => ⟨t.toNat, ⟨t.toNat_lt, bit⟩, Token.ofNat_toNat t⟩

theorem tokens_nodup (set : TokenSet) : set.tokens.Nodup := by
  refine List.Nodup.map_on ?_ (List.nodup_range.filter _)
  intro i hi j hj same
  rw [← Token.toNat_ofNat (List.mem_range.mp (List.mem_of_mem_filter hi)), same,
    Token.toNat_ofNat (List.mem_range.mp (List.mem_of_mem_filter hj))]

@[simp] theorem tokens_singleton (t : Token) : (tokenSetInsert tokenSetInit t).tokens = [t] := by
  refine List.perm_singleton.mp ((List.perm_ext_iff_of_nodup (tokens_nodup _) (List.nodup_singleton _)).mpr ?_)
  simp [mem_tokens]

end TokenSet

end Low
