import FiniteAutomata.Lexeme
/-!
# Lexemes as pieces of their text

A text is cut into pieces that lie side by side (`tiles_scan`), and joining pieces of junk leaves them
so (`tiles_joinJunk`). So spans ascend (`Tiles.pairwise`), and a lexeme is the piece of the text that its
span cuts out (`at?_of_mem_ofText`), which ends on character boundaries.
-/

namespace FiniteAutomata.Lexeme

variable {l m : Lexeme} {before pieces after : List Lexeme} {text : List Char} {offset : Nat}

/-- The pieces lie side by side from byte `offset` on, none is empty, and together they are the text. -/
inductive Tiles : Nat → List Lexeme → List Char → Prop
  | nil {offset : Nat} : Tiles offset [] []
  | cons {l : Lexeme} {rest : List Lexeme} {text : List Char}
      (stop_eq : l.span.stop = l.span.start + byteLength l.text) (nonempty : l.text ≠ [])
      (tail : Tiles l.span.stop rest text) : Tiles l.span.start (l :: rest) (l.text ++ text)

/-- **Scanning** cuts a text into pieces. -/
theorem tiles_scan (offset : Nat) (text : List Char) : Tiles offset (scan offset text) text := by
  induction offset, text using scan.induct with
  | case1 => exact .nil
  | case2 offset c rest stop ih =>
    rw [scan]
    refine @Tiles.cons ⟨.escape, ⟨offset, stop⟩, ['\\', c]⟩ _ _ ?_ (List.cons_ne_nil _ _) ih
    show offset + 1 + c.utf8Size = offset + byteLength ['\\', c]
    rw [byteLength_cons, byteLength_cons, byteLength_nil, Nat.add_assoc]
    rfl
  | case3 offset c rest hc stop ih =>
    rw [scan.eq_3 offset c rest hc]
    exact @Tiles.cons ⟨.ofChar c, ⟨offset, stop⟩, [c]⟩ _ _ rfl (List.cons_ne_nil _ _) ih

theorem Tiles.join (h : Tiles offset (l :: m :: pieces) text) : Tiles offset (l.join m :: pieces) text := by
  cases h with
  | cons hl hne htail =>
    generalize hstart : l.span.stop = stop at htail
    cases htail with
    | cons hm _ hrest =>
      rw [← List.append_assoc]
      refine @Tiles.cons (l.join m) _ _ ?_ (List.append_ne_nil_of_left_ne_nil hne _) hrest
      show m.span.stop = l.span.start + byteLength (l.text ++ m.text)
      rw [byteLength_append]
      omega

theorem tiles_joinJunk (h : Tiles offset pieces text) : Tiles offset (joinJunk pieces) text := by
  induction h with
  | nil => exact .nil
  | @cons l rest text hstop hne _ ih =>
    have hcons : Tiles l.span.start (l :: joinJunk rest) (l.text ++ text) := .cons hstop hne ih
    rw [joinJunk]
    cases hrest : joinJunk rest with
    | nil =>
      rw [hrest] at hcons
      exact hcons
    | cons m more =>
      rw [hrest] at hcons
      dsimp only
      split
      · exact hcons.join
      · exact hcons

theorem Tiles.flatMap_text (h : Tiles offset pieces text) : pieces.flatMap Lexeme.text = text := by
  induction h with
  | nil => rfl
  | cons _ _ _ ih => rw [List.flatMap_cons, ih]

/-- A piece lies in the text where its span says, between the texts of the pieces around it. -/
theorem Tiles.split (h : Tiles offset (before ++ l :: after) text) :
    text = before.flatMap Lexeme.text ++ l.text ++ after.flatMap Lexeme.text ∧
      l.span.start = offset + byteLength (before.flatMap Lexeme.text) ∧
      l.span.stop = offset + byteLength (before.flatMap Lexeme.text ++ l.text) ∧ l.text ≠ [] := by
  induction before generalizing offset text with
  | nil =>
    cases h with
    | cons hstop hne htail =>
      rw [htail.flatMap_text]
      exact ⟨rfl, rfl, hstop, hne⟩
  | cons m before ih =>
    cases h with
    | cons hstop _ htail =>
      obtain ⟨rfl, hstart, hstop', hne⟩ := ih htail
      rw [List.flatMap_cons]
      refine ⟨by simp only [List.append_assoc], ?_, ?_, hne⟩
      · rw [byteLength_append]
        omega
      · rw [List.append_assoc, byteLength_append]
        omega

theorem Tiles.start_lt_stop (h : Tiles offset pieces text) (hl : l ∈ pieces) :
    l.span.start < l.span.stop := by
  obtain ⟨before, after, rfl⟩ := List.append_of_mem hl
  obtain ⟨_, hstart, hstop, hne⟩ := h.split
  have hpos := byteLength_pos hne
  rw [hstart, hstop, byteLength_append]
  omega

theorem Tiles.le_start (h : Tiles offset pieces text) (hl : l ∈ pieces) : offset ≤ l.span.start := by
  obtain ⟨before, after, rfl⟩ := List.append_of_mem hl
  obtain ⟨_, hstart, _⟩ := h.split
  omega

theorem Tiles.stop_le (h : Tiles offset pieces text) (hl : l ∈ pieces) :
    l.span.stop ≤ offset + byteLength text := by
  obtain ⟨before, after, rfl⟩ := List.append_of_mem hl
  obtain ⟨htext, _, hstop, _⟩ := h.split
  rw [hstop, htext, byteLength_append (before.flatMap Lexeme.text ++ l.text)]
  omega

theorem Tiles.pairwise (h : Tiles offset pieces text) :
    pieces.Pairwise fun l m => l.span.stop ≤ m.span.start := by
  induction h with
  | nil => exact .nil
  | cons _ _ htail ih => exact .cons (fun _ hm => htail.le_start hm) ih

/-! ## Lexemes of a text -/

theorem tiles_ofText (text : String) : Tiles 0 (joinJunk (scan 0 text.toList)) text.toList :=
  tiles_joinJunk (tiles_scan 0 text.toList)

theorem slice?_of_mem_ofText {text : String} (hl : l ∈ ofText text) :
    slice? text.toList l.span = some l.text := by
  have htiles := tiles_ofText text
  obtain ⟨before, after, hsplit⟩ := List.append_of_mem (List.mem_filter.1 hl).1
  rw [hsplit] at htiles
  obtain ⟨htext, hstart, hstop, _⟩ := htiles.split
  rw [Nat.zero_add] at hstart hstop
  exact slice?_eq_some_iff.2 ⟨_, _, htext, hstart, hstop⟩

theorem at?_of_mem_ofText {text : String} (hl : l ∈ ofText text) :
    at? text.toList l.kind l.span = some l := by
  unfold at?
  rw [slice?_of_mem_ofText hl]
  rfl

end FiniteAutomata.Lexeme
