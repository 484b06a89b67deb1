import Mathlib.Data.List.Defs

/-!
# String methods

The methods of Python's `str` the ledger applies to actions and symbols, on lists of characters.
Case mapping is the ASCII one: no other character maps to a letter that a test below looks for.
-/

namespace TtLedger.Text

/-- The code points `str.isspace` accepts. -/
def isSpace (c : Char) : Bool :=
  (9 ≤ c.toNat && c.toNat ≤ 13) || (28 ≤ c.toNat && c.toNat ≤ 32) ||
    c.toNat ∈ [0x85, 0xA0, 0x1680, 0x2028, 0x2029, 0x202F, 0x205F, 0x3000] ||
    (0x2000 ≤ c.toNat && c.toNat ≤ 0x200A)

/-- `str.lstrip` for the characters satisfying `p`. -/
def lstrip (p : Char → Bool) (s : List Char) : List Char := s.dropWhile p

/-- `str.strip`. -/
def strip (s : List Char) : List Char := (lstrip isSpace (lstrip isSpace s).reverse).reverse

/-- `str.lower` of ASCII letters; other letters stay as they are. -/
def lower (s : List Char) : List Char := s.map Char.toLower

/-- `str.upper` of ASCII letters. -/
def upper (s : List Char) : List Char := s.map Char.toUpper

def startsWith (s p : List Char) : Bool := p.isPrefixOf s

def endsWith (s p : List Char) : Bool := p.isSuffixOf s

/-- The operator `p in s`. -/
def contains (s p : List Char) : Bool := s.tails.any fun t => startsWith t p

/-- What is left after stripping does not start with a space. -/
theorem isSpace_head?_lstrip (s : List Char) :
    ∀ c ∈ (lstrip isSpace s).head?, isSpace c = false := by
  intro c hc
  have hhead := List.head?_dropWhile_not isSpace s
  rw [lstrip] at hc
  rw [hc] at hhead
  simpa using hhead

/-- What is left after stripping does not end in a space. -/
theorem isSpace_getLast?_strip (s : List Char) : ∀ c ∈ (strip s).getLast?, isSpace c = false := by
  intro c hc
  rw [strip, List.getLast?_reverse] at hc
  exact isSpace_head?_lstrip _ c hc

/-- Stripping the front leaves the end. -/
theorem getLast?_of_lstrip {p : Char → Bool} {s : List Char} {c : Char}
    (h : c ∈ (lstrip p s).getLast?) : c ∈ s.getLast? := by
  obtain ⟨t, ht⟩ := List.dropWhile_suffix (l := s) p
  rw [← ht, List.getLast?_append, ← lstrip, Option.mem_def.mp h]
  rfl

theorem lstrip_eq_self {p : Char → Bool} {s : List Char} (h : ∀ c ∈ s.head?, p c = false) :
    lstrip p s = s := by
  cases s with
  | nil => rfl
  | cons c s => rw [lstrip, List.dropWhile_cons, h c rfl, if_neg Bool.false_ne_true]

/-- A text that neither starts nor ends with a space is left as it is. -/
theorem strip_eq_self {s : List Char} (hhead : ∀ c ∈ s.head?, isSpace c = false)
    (hlast : ∀ c ∈ s.getLast?, isSpace c = false) : strip s = s := by
  rw [strip, lstrip_eq_self hhead, lstrip_eq_self (by rwa [List.head?_reverse]),
    List.reverse_reverse]

theorem mem_of_mem_strip {s : List Char} {c : Char} (h : c ∈ strip s) : c ∈ s := by
  rw [strip, List.mem_reverse] at h
  have hfront := List.mem_reverse.mp ((List.dropWhile_suffix _).subset h)
  exact (List.dropWhile_suffix _).subset hfront

/-- Texts without a separator can be told apart from what follows it. -/
theorem append_sep_inj {c : Char} {d d' x y : List Char} (h : c ∉ d) (h' : c ∉ d')
    (heq : d ++ c :: x = d' ++ c :: y) : d = d' ∧ x = y := by
  induction d generalizing d' with
  | nil =>
    cases d' with
    | nil => simpa using heq
    | cons a d' =>
      obtain ⟨rfl, -⟩ := List.cons.inj heq
      exact absurd (List.mem_cons_self) h'
  | cons a d ih =>
    cases d' with
    | nil =>
      obtain ⟨rfl, -⟩ := List.cons.inj heq
      exact absurd (List.mem_cons_self) h
    | cons a' d' =>
      obtain ⟨rfl, htail⟩ := List.cons.inj heq
      obtain ⟨rfl, hxy⟩ := ih (fun hm => h (.tail _ hm)) (fun hm => h' (.tail _ hm)) htail
      exact ⟨rfl, hxy⟩

end TtLedger.Text
