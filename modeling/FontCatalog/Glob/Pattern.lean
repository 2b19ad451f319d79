/-!
# Patterns for names

A pattern stands for names: `?` for one character, `*` for any number of
them, brackets for one character out of a set or, with `!`, outside it,
and every other character for itself. As the whole of a component, `**`
stands for any number of directories.

Not every text is a pattern. Where a text goes wrong, and why, is a
`PatternError`; positions are counted in characters.
-/

namespace FontCatalog.Glob

/-- **What is wrong with a pattern.** -/
inductive PatternFault where
  /-- Three stars or more. -/
  | wildcards
  /-- Two stars that are not a whole component. -/
  | recursiveWildcards
  /-- A bracket that is not a set of characters. -/
  | range
deriving DecidableEq

/-- **A fault of a pattern, and where it is.** -/
structure PatternError where
  /-- The position, in characters. -/
  position : Nat
  /-- The fault. -/
  fault : PatternFault
deriving DecidableEq

namespace PatternError

/-- What is said of the error. -/
def message (e : PatternError) : String :=
  "Pattern syntax error near position " ++ toString e.position ++ ": " ++
    match e.fault with
    | .wildcards => "wildcards are either regular `*` or recursive `**`"
    | .recursiveWildcards => "recursive wildcards must form a single path component"
    | .range => "invalid range pattern"

end PatternError

/-- **An element of a set of characters.** -/
inductive CharSpec where
  /-- One character. -/
  | single (c : Char)
  /-- All characters between two. -/
  | range (first last : Char)
deriving DecidableEq

/-- **An element of a pattern.** -/
inductive Token where
  /-- A character that stands for itself. -/
  | char (c : Char)
  /-- Any one character. -/
  | anyChar
  /-- Any number of characters. -/
  | anySequence
  /-- Any number of directories. -/
  | anyDirectories
  /-- One character of a set. -/
  | oneOf (specs : List CharSpec)
  /-- One character outside a set. -/
  | noneOf (specs : List CharSpec)
deriving DecidableEq

/-- A pattern is its elements, in order. -/
abbrev Pattern := List Token

namespace CharSpec

/-- Whether a character is meant. -/
def accepts (c : Char) : CharSpec → Bool
  | single x => c == x
  | range first last => first ≤ c && c ≤ last

/-- The set that the characters between brackets stand for: three of them
with a hyphen in the middle are a range. -/
def ofChars : List Char → List CharSpec
  | first :: '-' :: last :: rest => range first last :: ofChars rest
  | c :: rest => single c :: ofChars rest
  | [] => []

end CharSpec

/-! ## Reading patterns -/

/-- The characters up to the bracket that closes a set, and what is behind
it. The first character always belongs to the set. -/
def closeSet? : List Char → Option (List Char × List Char)
  | [] => none
  | first :: rest =>
    match rest.dropWhile (· ≠ ']') with
    | [] => none
    | _ :: behind => some (first :: rest.takeWhile (· ≠ ']'), behind)

/-- What follows an opening bracket as a set, if it is one, and what is
behind it. -/
def readSet? : List Char → Option (Token × List Char)
  | '!' :: rest => (closeSet? rest).map fun (cs, behind) => (.noneOf (CharSpec.ofChars cs), behind)
  | rest => (closeSet? rest).map fun (cs, behind) => (.oneOf (CharSpec.ofChars cs), behind)

/-- A set leaves less than it was read from. -/
theorem length_of_closeSet? {cs set behind : List Char} (h : closeSet? cs = some (set, behind)) :
    behind.length < cs.length := by
  cases cs with
  | nil => simp [closeSet?] at h
  | cons first rest =>
    simp only [closeSet?] at h
    split at h
    · simp at h
    · next c rest' hdrop =>
      simp only [Option.some.injEq, Prod.mk.injEq] at h
      have hle := (List.dropWhile_suffix (p := fun c => decide (c ≠ ']')) (l := rest)).length_le
      rw [hdrop] at hle
      rw [← h.2]
      simp only [List.length_cons] at hle ⊢
      omega

theorem length_of_readSet? {cs behind : List Char} {t : Token}
    (h : readSet? cs = some (t, behind)) : behind.length < cs.length := by
  unfold readSet? at h
  split at h
  · obtain ⟨⟨set, left⟩, hclose, heq⟩ := Option.map_eq_some_iff.mp h
    obtain ⟨-, rfl⟩ := Prod.mk.inj heq
    exact Nat.lt_succ_of_lt (length_of_closeSet? hclose)
  · obtain ⟨⟨set, left⟩, hclose, heq⟩ := Option.map_eq_some_iff.mp h
    obtain ⟨-, rfl⟩ := Prod.mk.inj heq
    exact length_of_closeSet? hclose

/-- **Reads a pattern** from position `pos` on; `before` is the character
before it, if there is one. -/
def Pattern.readFrom (before : Option Char) (pos : Nat) :
    List Char → Except PatternError Pattern
  | [] => .ok []
  | '?' :: rest => (readFrom (some '?') (pos + 1) rest).map (.anyChar :: ·)
  | '*' :: '*' :: '*' :: _ => .error ⟨pos + 2, .wildcards⟩
  | '*' :: '*' :: rest =>
    if before.all (· = '/') then
      match rest with
      | [] => .ok [.anyDirectories]
      | '/' :: rest => (readFrom (some '/') (pos + 3) rest).map (.anyDirectories :: ·)
      | _ => .error ⟨pos + 2, .recursiveWildcards⟩
    else .error ⟨pos - 1, .recursiveWildcards⟩
  | '*' :: rest => (readFrom (some '*') (pos + 1) rest).map (.anySequence :: ·)
  | '[' :: rest =>
    match h : readSet? rest with
    | some (token, behind) =>
      have : behind.length < rest.length := length_of_readSet? h
      (readFrom (some ']') (pos + 1 + (rest.length - behind.length)) behind).map (token :: ·)
    | none => .error ⟨pos, .range⟩
  | c :: rest => (readFrom (some c) (pos + 1) rest).map (.char c :: ·)
termination_by cs => cs.length
decreasing_by all_goals simp only [List.length_cons]; omega

/-- **The pattern that a text is**, if it is one. -/
def Pattern.read (text : String) : Except PatternError Pattern :=
  Pattern.readFrom none 0 text.toList

/-! ## Matching names -/

namespace Token

/-- The character that an element is, if it stands for itself. -/
def char? : Token → Option Char
  | char c => some c
  | _ => none

/-- Whether an element that stands for one character stands for `c`. -/
def accepts (c : Char) : Token → Bool
  | char x => c == x
  | anyChar => true
  | oneOf specs => specs.any (·.accepts c)
  | noneOf specs => !specs.any (·.accepts c)
  | anySequence | anyDirectories => false

end Token

/-- Whether some end of a list, the whole list and the empty one included,
has a property. -/
def anyEnd (p : List Char → Bool) : List Char → Bool
  | [] => p []
  | c :: cs => p (c :: cs) || anyEnd p cs

namespace Pattern

/-- **Whether a pattern stands for a name.** -/
def accepts : Pattern → List Char → Bool
  | [], cs => cs.isEmpty
  | .anySequence :: ts, cs | .anyDirectories :: ts, cs => anyEnd (accepts ts) cs
  | t :: ts, cs =>
    match cs with
    | [] => false
    | c :: cs => t.accepts c && accepts ts cs

/-- Whether a pattern stands for any number of directories. -/
def isRecursive (p : Pattern) : Bool := p.any (· == .anyDirectories)

/-- The one name that a pattern of mere characters stands for. -/
def literal? (p : Pattern) : Option String := (p.mapM Token.char?).map String.ofList

end Pattern

end FontCatalog.Glob
