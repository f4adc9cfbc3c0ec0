/-!
# Spans of a text

Places in a text are counted in bytes of its UTF-8 form, and a `Span` runs from one place up to
another. A span cuts a text only if both ends lie on character boundaries: `slice?` gives the
characters in between, or nothing.
-/

namespace FiniteAutomata

/-- The bytes from `start` up to `stop`. -/
structure Span where
  start : Nat
  stop : Nat
  deriving DecidableEq, Repr

/-- Length of a text in bytes. -/
def byteLength : List Char → Nat
  | [] => 0
  | c :: rest => c.utf8Size + byteLength rest

@[simp] theorem byteLength_nil : byteLength [] = 0 := rfl

@[simp] theorem byteLength_cons (c : Char) (text : List Char) :
    byteLength (c :: text) = c.utf8Size + byteLength text := rfl

@[simp] theorem byteLength_append (s t : List Char) : byteLength (s ++ t) = byteLength s + byteLength t := by
  induction s with
  | nil => simp
  | cons c s ih => simp [ih, Nat.add_assoc]

theorem byteLength_pos {text : List Char} (h : text ≠ []) : 0 < byteLength text := by
  obtain ⟨c, rest, rfl⟩ := List.exists_cons_of_ne_nil h
  have hc := c.utf8Size_pos
  rw [byteLength_cons]
  omega

/-- Cut a text after `n` bytes, if a character ends there. -/
def splitBytes? : Nat → List Char → Option (List Char × List Char)
  | 0, text => some ([], text)
  | _ + 1, [] => none
  | n + 1, c :: rest =>
    if c.utf8Size ≤ n + 1 then
      (splitBytes? (n + 1 - c.utf8Size) rest).map fun (front, back) => (c :: front, back)
    else none

theorem splitBytes?_byteLength (front back : List Char) :
    splitBytes? (byteLength front) (front ++ back) = some (front, back) := by
  induction front with
  | nil => simp [splitBytes?]
  | cons c rest ih =>
    have hc := c.utf8Size_pos
    obtain ⟨n, hn⟩ : ∃ n, byteLength (c :: rest) = n + 1 :=
      ⟨byteLength (c :: rest) - 1, by rw [byteLength_cons]; omega⟩
    have hrest : n + 1 - c.utf8Size = byteLength rest := by rw [byteLength_cons] at hn; omega
    have hle : c.utf8Size ≤ n + 1 := by rw [byteLength_cons] at hn; omega
    rw [hn, List.cons_append, splitBytes?, if_pos hle, hrest, ih, Option.map_some]

theorem eq_append_of_splitBytes? {n : Nat} {text front back : List Char}
    (h : splitBytes? n text = some (front, back)) : text = front ++ back ∧ byteLength front = n := by
  induction text generalizing n front with
  | nil =>
    cases n with
    | zero => simp_all [splitBytes?]
    | succ n => simp [splitBytes?] at h
  | cons c rest ih =>
    cases n with
    | zero => simp_all [splitBytes?]
    | succ n =>
      rw [splitBytes?] at h
      split at h
      · rename_i hle
        obtain ⟨⟨front', back'⟩, hsplit, heq⟩ := Option.map_eq_some_iff.1 h
        simp only [Prod.mk.injEq] at heq
        obtain ⟨rfl, rfl⟩ := heq
        obtain ⟨rfl, hlen⟩ := ih hsplit
        exact ⟨rfl, by rw [byteLength_cons]; omega⟩
      · cases h

/-- The characters of a span, if it lies in the text and both ends are character boundaries. -/
def slice? (text : List Char) (span : Span) : Option (List Char) :=
  if span.start ≤ span.stop then do
    let (_, back) ← splitBytes? span.start text
    let (inner, _) ← splitBytes? (span.stop - span.start) back
    return inner
  else none

theorem slice?_eq_some_iff {text inner : List Char} {span : Span} :
    slice? text span = some inner ↔
      ∃ front back, text = front ++ inner ++ back ∧ span.start = byteLength front ∧
        span.stop = byteLength (front ++ inner) := by
  unfold slice?
  constructor
  · intro h
    split at h
    · simp only [Option.pure_def, Option.bind_eq_bind, Option.bind_eq_some_iff] at h
      obtain ⟨⟨front, back⟩, hfront, ⟨inner', back'⟩, hinner, heq⟩ := h
      cases heq
      obtain ⟨rfl, hstart⟩ := eq_append_of_splitBytes? hfront
      obtain ⟨rfl, hlen⟩ := eq_append_of_splitBytes? hinner
      refine ⟨front, back', by simp, hstart.symm, ?_⟩
      dsimp only
      rw [byteLength_append]
      omega
    · cases h
  · rintro ⟨front, back, rfl, hstart, hstop⟩
    rw [byteLength_append] at hstop
    have hlen : span.stop - span.start = byteLength inner := by omega
    rw [if_pos (by omega), hstart, List.append_assoc, splitBytes?_byteLength]
    simp [← hstart, hlen, splitBytes?_byteLength]

end FiniteAutomata
