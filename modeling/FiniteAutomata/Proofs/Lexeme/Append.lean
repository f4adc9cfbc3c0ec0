import FiniteAutomata.Proofs.Lexeme.Backslashes
import FiniteAutomata.Proofs.Lexeme.Content
/-!
# Texts with more behind them

A text that is cut into pieces keeps them when more comes behind it, unless its last piece is a backslash
that still lacks its character (`scan_append`). So white space behind it changes no lexeme
(`ofText_append_blanks`). The backslash that lacks its character takes the next one, and the text before it
keeps its pieces too (`exists_ofText_dangling`).
-/

namespace FiniteAutomata.Lexeme

variable {l : Lexeme} {s t : List Lexeme} {front back : List Char} {offset : Nat}

/-- **Cutting** goes on behind the last piece, if that lacks nothing. -/
theorem scan_append (h : ∀ l ∈ scan offset front, l.kind ≠ .backslash) (back : List Char) :
    scan offset (front ++ back) = scan offset front ++ scan (offset + byteLength front) back := by
  induction offset, front using scan.induct with
  | case1 offset => rfl
  | case2 offset c rest stop ih =>
    rw [scan] at h
    have hplace : offset + byteLength ('\\' :: c :: rest) = stop + byteLength rest := by
      simp only [byteLength_cons, ← Nat.add_assoc]
      rfl
    rw [List.cons_append, List.cons_append, scan, scan, ih (List.forall_mem_cons.1 h).2, hplace]
    rfl
  | case3 offset c rest hc stop ih =>
    rw [scan.eq_3 offset c rest hc] at h
    obtain ⟨hkind, hrest⟩ := List.forall_mem_cons.1 h
    have hne : c ≠ '\\' := by
      rintro rfl
      exact hkind rfl
    have hplace : offset + byteLength (c :: rest) = stop + byteLength rest := by
      rw [byteLength_cons, ← Nat.add_assoc]
    rw [List.cons_append, scan.eq_3 offset c rest hc, scan.eq_3 offset c (rest ++ back) fun _ _ hc' _ => hne hc',
      ih hrest, hplace]
    rfl

theorem kind_of_mem_scan_blanks (h : ∀ c ∈ back, CodePoints.whiteSpace.contains c = true) :
    ∀ l ∈ scan offset back, l.kind = .blank := by
  induction back generalizing offset with
  | nil => simp [scan]
  | cons c back ih =>
    obtain ⟨hc, hback⟩ := List.forall_mem_cons.1 h
    have hkind := LexemeKind.ofChar_of_whiteSpace hc
    have hne : c ≠ '\\' := by
      rintro rfl
      cases hkind
    rw [scan.eq_3 offset c back fun _ _ hc' _ => hne hc']
    exact List.forall_mem_cons.2 ⟨hkind, ih hback⟩

/-! ## Joined junk -/

theorem head?_joinJunk (s : List Lexeme) :
    (joinJunk s).head?.map Lexeme.kind = s.head?.map Lexeme.kind := by
  cases s with
  | nil => rfl
  | cons a s =>
    rw [joinJunk]
    cases joinJunk s with
    | nil => rfl
    | cons m more =>
      dsimp only
      split <;> rfl

/-- Junk is not joined to what is no junk. -/
theorem joinJunk_append (ht : ∀ l ∈ t.head?, l.kind ≠ .junk) :
    joinJunk (s ++ t) = joinJunk s ++ joinJunk t := by
  induction s with
  | nil => rfl
  | cons a s ih =>
    rw [List.cons_append, joinJunk, ih, joinJunk]
    cases hs : joinJunk s with
    | cons m more =>
      rw [List.cons_append]
      dsimp only
      split <;> rfl
    | nil =>
      rw [List.nil_append]
      cases hjoin : joinJunk t with
      | nil => rfl
      | cons m more =>
        have hkind : m.kind ≠ .junk := by
          have hhead := head?_joinJunk t
          rw [hjoin] at hhead
          obtain ⟨b, hb, heq⟩ := Option.map_eq_some_iff.1 hhead.symm
          rw [← heq]
          exact ht b hb
        exact if_neg fun hjunk => hkind hjunk.2

/-! ## Lexemes -/

theorem lexemes_append_blanks (ht : ∀ l ∈ t, l.kind = .blank) :
    (joinJunk (s ++ t)).filter (!·.kind.isTrivia) = (joinJunk s).filter (!·.kind.isTrivia) := by
  have hjunk : ∀ l ∈ t, l.kind ≠ .junk := by
    intro l hl
    rw [ht l hl]
    decide
  have hfilter : t.filter (!·.kind.isTrivia) = [] := by
    refine List.filter_eq_nil_iff.2 fun l hl => ?_
    rw [ht l hl]
    decide
  rw [joinJunk_append fun l hl => hjunk l (List.mem_of_mem_head? hl), joinJunk_eq_self hjunk,
    List.filter_append, hfilter, List.append_nil]

theorem lexemes_concat (hjunk : l.kind ≠ .junk) (hblank : l.kind ≠ .blank) :
    (joinJunk (s ++ [l])).filter (!·.kind.isTrivia) = (joinJunk s).filter (!·.kind.isTrivia) ++ [l] := by
  have hlast : ∀ m ∈ [l].head?, m.kind ≠ .junk := fun m hm => by rwa [← Option.mem_some.1 hm]
  have hkept : [l].filter (!·.kind.isTrivia) = [l] :=
    List.filter_cons_of_pos (by simpa [LexemeKind.isTrivia] using hblank)
  rw [joinJunk_append hlast, List.filter_append, show joinJunk [l] = [l] from rfl, hkept]

theorem forall_kind_ne_backslash (h : ¬ Odd (trailingBackslashes front)) :
    ∀ l ∈ scan 0 front, l.kind ≠ .backslash := by
  rw [(tiles_scan 0 front).odd_trailingBackslashes_iff (fits_scan 0 front)] at h
  exact fun l hl hkind => h ⟨l, hl, hkind⟩

/-- **White space behind a text** changes no lexeme, if no backslash at its end lacks its character. -/
theorem ofText_append_blanks (hfront : ¬ Odd (trailingBackslashes front))
    (hback : ∀ c ∈ back, CodePoints.whiteSpace.contains c = true) :
    ofText (String.ofList (front ++ back)) = ofText (String.ofList front) := by
  unfold ofText
  rw [String.toList_ofList, String.toList_ofList, scan_append (forall_kind_ne_backslash hfront)]
  exact lexemes_append_blanks (kind_of_mem_scan_blanks hback)

theorem exists_of_odd_trailingBackslashes (h : Odd (trailingBackslashes front)) :
    ∃ init, front = init ++ ['\\'] ∧ ¬ Odd (trailingBackslashes init) := by
  rcases List.eq_nil_or_concat front with rfl | ⟨init, c, rfl⟩
  · exact absurd h (by decide)
  · rw [List.concat_eq_append] at h ⊢
    obtain rfl : c = '\\' := by
      by_contra hc
      rw [trailingBackslashes_concat hc] at h
      exact absurd h (by decide)
    exact ⟨init, rfl, odd_trailingBackslashes_concat init |>.1 h⟩

/-- **A backslash at the end** that lacks its character takes the next one, if white space comes; the
lexemes before it stay as they are. -/
theorem exists_ofText_dangling {c : Char} (hfront : ¬ Odd (trailingBackslashes front))
    (hback : ∀ c ∈ back, CodePoints.whiteSpace.contains c = true) :
    ∃ before dangling escape, ofText (String.ofList (front ++ ['\\'])) = before ++ [dangling] ∧
      ofText (String.ofList (front ++ '\\' :: c :: back)) = before ++ [escape] ∧
      dangling.kind = .backslash := by
  have hpieces := forall_kind_ne_backslash hfront
  have hdangling : scan (0 + byteLength front) ['\\'] =
    [⟨.backslash, ⟨0 + byteLength front, 0 + byteLength front + 1⟩, ['\\']⟩] := rfl
  refine ⟨(joinJunk (scan 0 front)).filter (!·.kind.isTrivia),
    ⟨.backslash, ⟨0 + byteLength front, 0 + byteLength front + 1⟩, ['\\']⟩,
    ⟨.escape, ⟨0 + byteLength front, 0 + byteLength front + 1 + c.utf8Size⟩, ['\\', c]⟩, ?_, ?_, rfl⟩
  · unfold ofText
    rw [String.toList_ofList, scan_append hpieces, hdangling]
    exact lexemes_concat LexemeKind.noConfusion LexemeKind.noConfusion
  · unfold ofText
    rw [String.toList_ofList, scan_append hpieces, scan, List.append_cons,
      lexemes_append_blanks (kind_of_mem_scan_blanks hback)]
    exact lexemes_concat LexemeKind.noConfusion LexemeKind.noConfusion

end FiniteAutomata.Lexeme
