import FiniteAutomata.Proofs.Infix.Causes
import FiniteAutomata.Snippet
/-!
# Causes can be shown

A cause is shown in its text unless its span cuts a character. Every line of a text lies where it says
(`lies_of_mem_lines`), so it has a column for each place between two characters, in front of it, inside it
or behind it (`Line.Lies.exists_column`), and a span that cuts some characters out of the text begins and
ends at such places.

Main statement: `exists_render`.
-/

namespace FiniteAutomata.Snippet

variable {text front back pre rest reversed : List Char} {l : Line} {number start : Nat}

/-! ## Where lines lie -/

/-- The line begins at its byte of the text, which goes on with its characters. -/
def Line.Lies (l : Line) (text : List Char) : Prop :=
  ∃ pre more, text = pre ++ l.text ++ more ∧ l.start = byteLength pre

theorem byteLength_reverse (text : List Char) : byteLength text.reverse = byteLength text := by
  induction text with
  | nil => rfl
  | cons c text ih =>
    rw [List.reverse_cons, byteLength_append, ih, byteLength_cons, byteLength_cons, byteLength_nil]
    omega

/-- Without its carriage return a line is a front of what it was. -/
theorem exists_dropReturn (reversed : List Char) :
    ∃ more, reversed.reverse = (dropReturn reversed).reverse ++ more := by
  unfold dropReturn
  split
  · exact ⟨['\r'], List.reverse_cons⟩
  · exact ⟨[], (List.append_nil _).symm⟩

theorem lies_of_mem_linesFrom (htext : text = pre ++ reversed.reverse ++ rest)
    (hstart : start = byteLength pre) (hl : l ∈ linesFrom number start reversed rest) : l.Lies text := by
  induction rest generalizing number start reversed pre with
  | nil =>
    rw [linesFrom] at hl
    split at hl
    · cases hl
    · rw [List.mem_singleton.1 hl]
      exact ⟨pre, [], htext, hstart⟩
  | cons c rest ih =>
    rw [linesFrom] at hl
    split at hl
    case isTrue hc =>
      rcases List.mem_cons.1 hl with rfl | hl
      · obtain ⟨more, hmore⟩ := exists_dropReturn reversed
        refine ⟨pre, more ++ c :: rest, ?_, hstart⟩
        rw [htext, hmore]
        simp
      · have hstop : start + byteLength reversed + 1 = byteLength (pre ++ reversed.reverse ++ [c]) := by
          rw [byteLength_append, byteLength_append, byteLength_reverse, hstart, hc]
          rfl
        exact ih (by rw [htext]; simp) hstop hl
    case isFalse => exact ih (by rw [htext]; simp) hstart hl

theorem lies_of_mem_lines (hl : l ∈ lines text) : l.Lies text := by
  unfold lines at hl
  split at hl
  · rw [List.mem_singleton.1 hl]
    exact ⟨[], text, rfl, rfl⟩
  · have htext : text = [] ++ [].reverse ++ text := rfl
    exact lies_of_mem_linesFrom htext rfl hl

theorem lies_lineAt (text : List Char) (byte : Nat) : (lineAt text byte).Lies text := by
  have hfirst : Line.Lies ⟨1, 0, 0, []⟩ text := ⟨[], text, rfl, rfl⟩
  unfold lineAt
  dsimp only
  cases hfind : (lines text).find? fun l => l.start ≤ byte && byte < l.stop with
  | some l => exact lies_of_mem_lines (List.mem_of_find?_eq_some hfind)
  | none =>
    cases hlast : (lines text).getLast? with
    | some l => exact lies_of_mem_lines (List.mem_of_getLast? hlast)
    | none => exact hfirst

/-! ## Columns -/

/-- Of two fronts of a text the one with fewer bytes is a front of the other. -/
theorem exists_append_of_byteLength_le {u v s t : List Char} (h : u ++ s = v ++ t)
    (hle : byteLength u ≤ byteLength v) : ∃ m, v = u ++ m := by
  rcases List.append_eq_append_iff.1 h with ⟨m, rfl, _⟩ | ⟨m, rfl, _⟩
  · exact ⟨m, rfl⟩
  · have hm : m = [] := by
      by_contra hne
      have hpos := byteLength_pos hne
      rw [byteLength_append] at hle
      omega
    exact ⟨[], by rw [hm]; simp⟩

/-- A line has a column for each place between two characters of the text. -/
theorem Line.Lies.exists_column (h : l.Lies (front ++ back)) :
    ∃ column, l.column? (byteLength front) = some column := by
  obtain ⟨pre, more, htext, hstart⟩ := h
  unfold Line.column?
  split
  case isTrue => exact ⟨_, rfl⟩
  case isFalse hlt =>
    by_cases hle : byteLength pre ≤ byteLength front
    · rw [List.append_assoc] at htext
      obtain ⟨inner, rfl⟩ := exists_append_of_byteLength_le htext.symm hle
      rw [List.append_assoc] at htext
      rw [hstart, byteLength_append, Nat.add_sub_cancel_left] at hlt ⊢
      obtain ⟨behind, hbehind⟩ := exists_append_of_byteLength_le (List.append_cancel_left htext) (by omega)
      rw [hbehind, splitBytes?_byteLength]
      exact ⟨_, rfl⟩
    · rw [hstart, Nat.sub_eq_zero_of_le (by omega)]
      exact ⟨_, by rw [splitBytes?]; rfl⟩

/-! ## Causes -/

theorem exists_startPlace (front back : List Char) :
    ∃ start, startPlace? (front ++ back) (byteLength front) = some start := by
  obtain ⟨column, hcolumn⟩ := (lies_lineAt (front ++ back) (byteLength front)).exists_column
  unfold startPlace?
  simp only [hcolumn]
  exact ⟨_, rfl⟩

theorem exists_stopPlace (front back : List Char) (start : Place) :
    ∃ stop, stopPlace? (front ++ back) start (byteLength front) = some stop := by
  obtain ⟨column, hcolumn⟩ := (lies_lineAt (front ++ back) (byteLength front)).exists_column
  unfold stopPlace?
  simp only [hcolumn]
  exact ⟨_, rfl⟩

/-- **Shown.** A cause whose span cuts some characters out of its text is shown in it. -/
theorem exists_render {cause : SyntaxError} {source : String} {piece : List Char}
    (hslice : slice? source.toList cause.span = some piece) (hne : piece ≠ []) (colored : Bool) :
    ∃ snippet, render? cause source colored = some snippet := by
  obtain ⟨hlt, hle⟩ := lt_stop_of_slice? hslice hne
  obtain ⟨front, back, htext, hstart, hstop⟩ := slice?_eq_some_iff.1 hslice
  obtain ⟨start, hstartPlace⟩ := exists_startPlace front (piece ++ back)
  obtain ⟨stop, hstopPlace⟩ := exists_stopPlace (front ++ piece) back start
  have hsplit := splitBytes?_byteLength (front ++ piece) back
  rw [← List.append_assoc, ← htext, ← hstart] at hstartPlace
  rw [← htext, ← hstop] at hstopPlace hsplit
  unfold render?
  simp only [adjust_eq_self hlt hle, hsplit, hstartPlace, hstopPlace, Option.bind_eq_bind, Option.bind_some]
  exact ⟨_, rfl⟩

end FiniteAutomata.Snippet
