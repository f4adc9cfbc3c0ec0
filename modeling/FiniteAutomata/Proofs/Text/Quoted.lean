import FiniteAutomata.Text.Quoted
/-!
# Numerals and quoted characters

Both are texts that show: no line feed or other character without a picture of its own is in them
(`Quoted.isPlain_of_mem_character`). And both tell where they end. A numeral goes on for as long as there
are digits (`numeral_append_inj`), and a character that is not written as itself begins with a backslash,
which says how it goes on (`Quoted.character_append_inj`). So what is put together from them can be taken
apart again.
-/

namespace FiniteAutomata

/-! ## Numerals -/

theorem digitChar_inj {d e : Nat} (hd : d < 16) (he : e < 16) (h : d.digitChar = e.digitChar) : d = e := by
  have key : ∀ d < 16, ∀ e < 16, d.digitChar = e.digitChar → d = e := by decide
  exact key d hd e he h

theorem exists_digit_of_mem_toDigits {b n : Nat} {c : Char} (hb : 1 < b) (h : c ∈ Nat.toDigits b n) :
    ∃ d < b, c = d.digitChar := by
  induction n using Nat.strongRecOn with
  | _ n ih =>
    rw [Nat.toDigits_eq_if hb] at h
    split at h
    case isTrue hn => exact ⟨n, hn, List.mem_singleton.1 h⟩
    case isFalse hn =>
      rcases List.mem_append.1 h with h | h
      · exact ih (n / b) (Nat.div_lt_self (by omega) hb) h
      · exact ⟨n % b, Nat.mod_lt n (by omega), List.mem_singleton.1 h⟩

theorem toDigits_inj {b m n : Nat} (hb : 1 < b) (hb' : b ≤ 16)
    (h : Nat.toDigits b m = Nat.toDigits b n) : m = n := by
  induction m using Nat.strongRecOn generalizing n with
  | _ m ih =>
    rw [Nat.toDigits_eq_if hb, Nat.toDigits_eq_if (n := n) hb] at h
    split at h <;> split at h
    case isTrue.isTrue hm hn =>
      exact digitChar_inj (by omega) (by omega) (List.singleton_inj.1 h)
    case isTrue.isFalse =>
      exact absurd (List.append_eq_singleton_iff.1 h.symm) (by simp [Nat.toDigits_ne_nil])
    case isFalse.isTrue =>
      exact absurd (List.append_eq_singleton_iff.1 h) (by simp [Nat.toDigits_ne_nil])
    case isFalse.isFalse hm hn =>
      obtain ⟨hdiv, hmod⟩ := List.append_inj' h rfl
      have hquotient : m / b = n / b := ih (m / b) (Nat.div_lt_self (by omega) hb) hdiv
      have hrest : m % b = n % b := by
        have hm := Nat.mod_lt m (show 0 < b by omega)
        have hn := Nat.mod_lt n (show 0 < b by omega)
        exact digitChar_inj (by omega) (by omega) (List.singleton_inj.1 hmod)
      rw [← Nat.div_add_mod m b, hquotient, hrest, Nat.div_add_mod]

theorem not_mem_repr {c : Char} (hc : c.isDigit = false) (n : Nat) : c ∉ n.repr.toList := by
  rw [Nat.toList_repr]
  intro h
  rw [Nat.isDigit_of_mem_toDigits (by decide) (by decide) h] at hc
  cases hc

/-- Two texts begin with the longest runs of characters that have a property. -/
theorem append_inj_of_run {p : Char → Bool} {u v s t : List Char} (hu : ∀ c ∈ u, p c = true)
    (hv : ∀ c ∈ v, p c = true) (hs : ∀ c ∈ s.head?, p c = false) (ht : ∀ c ∈ t.head?, p c = false)
    (h : u ++ s = v ++ t) : u = v ∧ s = t := by
  have hrun : ∀ {s : List Char}, (∀ c ∈ s.head?, p c = false) → s.takeWhile p = [] := by
    intro s hs
    cases s with
    | nil => rfl
    | cons c s => exact List.takeWhile_cons_of_neg (by simp [hs c rfl])
  have htake : u ++ s.takeWhile p = v ++ t.takeWhile p := by
    rw [← List.takeWhile_append_of_pos hu, h, List.takeWhile_append_of_pos hv]
  rw [hrun hs, hrun ht, List.append_nil, List.append_nil] at htake
  subst htake
  exact ⟨rfl, List.append_cancel_left h⟩

/-- The run is over at a sign without the property. -/
theorem head?_of_sign {p : Char → Bool} {sign : Char} (hsign : p sign = false) (s : List Char) :
    ∀ c ∈ (sign :: s).head?, p c = false := fun _ hc => Option.mem_some.1 hc ▸ hsign

/-- A sign that is in neither of two texts ends both of them. -/
theorem append_inj_of_not_mem {sign : Char} {u v s t : List Char} (hu : sign ∉ u) (hv : sign ∉ v)
    (h : u ++ sign :: s = v ++ sign :: t) : u = v ∧ s = t := by
  have hne : ∀ {u : List Char}, sign ∉ u → ∀ c ∈ u, decide (c ≠ sign) = true :=
    fun hu c hc => decide_eq_true fun heq => hu (heq ▸ hc)
  have hsign : decide (sign ≠ sign) = false := by simp
  obtain ⟨htext, hrest⟩ := append_inj_of_run (hne hu) (hne hv) (head?_of_sign hsign s)
    (head?_of_sign hsign t) h
  exact ⟨htext, (List.cons.inj hrest).2⟩

/-- **Parts in a row.** Texts are told apart if each of their parts tells where it ends and what is behind
the last one begins like no part. -/
theorem flatMap_append_inj {α β : Type} {write : α → List β} {l m : List α} {s t : List β}
    (hwrite : ∀ x ∈ l, ∀ y ∈ m, ∀ s t, write x ++ s = write y ++ t → x = y ∧ s = t)
    (hs : ∀ y ∈ m, ¬ write y <+: s) (ht : ∀ x ∈ l, ¬ write x <+: t)
    (h : l.flatMap write ++ s = m.flatMap write ++ t) : l = m ∧ s = t := by
  induction l generalizing m with
  | nil =>
    cases m with
    | nil => exact ⟨rfl, h⟩
    | cons y m =>
      rw [List.flatMap_nil, List.nil_append, List.flatMap_cons, List.append_assoc] at h
      exact absurd ⟨_, h.symm⟩ (hs y List.mem_cons_self)
  | cons x l ih =>
    obtain ⟨hx, ht⟩ := List.forall_mem_cons.1 ht
    obtain ⟨hwritex, hwrite⟩ := List.forall_mem_cons.1 hwrite
    rw [List.flatMap_cons, List.append_assoc] at h
    cases m with
    | nil => exact absurd ⟨_, h⟩ hx
    | cons y m =>
      replace hs := (List.forall_mem_cons.1 hs).2
      rw [List.flatMap_cons, List.append_assoc] at h
      obtain ⟨rfl, htail⟩ := hwritex y List.mem_cons_self _ _ h
      obtain ⟨rfl, hrest⟩ :=
        ih (fun x hx y hy => hwrite x hx y (List.mem_cons_of_mem _ hy)) hs ht htail
      exact ⟨rfl, hrest⟩

theorem eq_of_flatMap_eq {α β : Type} {write : α → List β} {l m : List α}
    (hwrite : ∀ x ∈ l, ∀ y ∈ m, ∀ s t, write x ++ s = write y ++ t → x = y ∧ s = t)
    (hne : ∀ x, write x ≠ []) (h : l.flatMap write = m.flatMap write) : l = m := by
  have happend : l.flatMap write ++ [] = m.flatMap write ++ [] := by rw [h]
  have hnil : ∀ x, ¬ write x <+: [] := fun x hx => hne x (List.prefix_nil.1 hx)
  exact (flatMap_append_inj hwrite (fun y _ => hnil y) (fun x _ => hnil x) happend).1

/-- **Numerals** with no digit behind them. -/
theorem numeral_append_inj {m n : Nat} {s t : List Char} (hs : ∀ c ∈ s.head?, c.isDigit = false)
    (ht : ∀ c ∈ t.head?, c.isDigit = false) (h : m.repr.toList ++ s = n.repr.toList ++ t) :
    m = n ∧ s = t := by
  rw [Nat.toList_repr, Nat.toList_repr] at h
  have hdigit : ∀ {n : Nat}, ∀ c ∈ Nat.toDigits 10 n, c.isDigit = true :=
    fun c hc => Nat.isDigit_of_mem_toDigits (by decide) (by decide) hc
  obtain ⟨hnumeral, hrest⟩ := append_inj_of_run hdigit hdigit hs ht h
  exact ⟨toDigits_inj (by decide) (by decide) hnumeral, hrest⟩

/-! ## Quoted characters -/

namespace Quoted

variable {c d x : Char} {s t : List Char}

/-- The characters with a letter or a sign of their own behind the backslash. -/
def named : List (Char × Char) :=
  [('\x00', '0'), ('\t', 't'), ('\n', 'n'), ('\r', 'r'), ('\x27', '\x27'), ('\x22', '\x22'), ('\\', '\\')]

theorem toList_codePoint (c : Char) :
    (codePoint c).toList = '\\' :: 'u' :: '\x7b' :: (Nat.toDigits 16 c.toNat ++ ['\x7d']) := by
  unfold codePoint hexadecimal
  simp

/-- The three ways in which a character is written. -/
theorem character_cases (c : Char) :
    ((character c).toList = [c] ∧ c ≠ '\\' ∧ isPlain c = true) ∨
      (∃ x, (c, x) ∈ named ∧ (character c).toList = ['\\', x]) ∨
      (character c).toList = (codePoint c).toList := by
  unfold character
  split
  case h_8 hbackslash =>
    split
    · rename_i hplain
      exact Or.inl ⟨String.toList_singleton c, hbackslash, hplain⟩
    · exact Or.inr (Or.inr rfl)
  all_goals exact Or.inr (Or.inl ⟨_, by decide, rfl⟩)

theorem isPlain_of_ascii (h : 0x20 ≤ c.toNat) (h' : c.toNat < 0x7F) : isPlain c = true := by
  have hextend : CodePoints.graphemeExtend.contains c = false :=
    show CodePoints.search c.toNat ((0x300, 0x36F) :: _) = false by
      rw [CodePoints.search, if_pos (by omega)]
  have hprintable : CodePoints.unprintable.contains c = false :=
    show CodePoints.search c.toNat ((0x0, 0x1F) :: (0x7F, 0xA0) :: _) = false by
      rw [CodePoints.search, if_neg (by omega), decide_eq_false (by omega), Bool.false_or,
        CodePoints.search, if_pos (by omega)]
  unfold isPlain
  rw [hextend, hprintable]
  rfl

/-- **Nothing hidden.** What is written for a character shows as itself. -/
theorem isPlain_of_mem_character (h : x ∈ (character c).toList) : isPlain x = true := by
  rcases character_cases c with ⟨htext, _, hplain⟩ | ⟨y, hy, htext⟩ | htext
  · rw [htext, List.mem_singleton] at h
    rwa [h]
  · have hnamed : ∀ p ∈ named, 0x20 ≤ p.2.toNat ∧ p.2.toNat < 0x7F := by decide
    rw [htext] at h
    rcases List.mem_cons.1 h with rfl | h
    · exact isPlain_of_ascii (by decide) (by decide)
    · rw [List.mem_singleton.1 h]
      exact isPlain_of_ascii (hnamed _ hy).1 (hnamed _ hy).2
  · have hdigit : ∀ d < 16, 0x20 ≤ d.digitChar.toNat ∧ d.digitChar.toNat < 0x7F := by decide
    rw [htext, toList_codePoint] at h
    simp only [List.mem_cons, List.mem_append, List.not_mem_nil, or_false] at h
    rcases h with rfl | rfl | rfl | h | rfl
    · exact isPlain_of_ascii (by decide) (by decide)
    · exact isPlain_of_ascii (by decide) (by decide)
    · exact isPlain_of_ascii (by decide) (by decide)
    · obtain ⟨d, hd, rfl⟩ := exists_digit_of_mem_toDigits (by decide) h
      exact isPlain_of_ascii (hdigit d hd).1 (hdigit d hd).2
    · exact isPlain_of_ascii (by decide) (by decide)

theorem newline_not_mem_character (c : Char) : '\n' ∉ (character c).toList :=
  fun h => absurd (isPlain_of_mem_character h) (by decide +kernel)

theorem newline_not_mem_text (s : String) : '\n' ∉ (text s).toList := by
  unfold text
  simp only [String.toList_append, List.mem_append, not_or]
  refine ⟨⟨by decide, fun h => ?_⟩, by decide⟩
  rw [String.toList_join, List.mem_flatMap] at h
  obtain ⟨part, hpart, h⟩ := h
  obtain ⟨c, _, rfl⟩ := List.mem_map.1 hpart
  split at h
  · revert h
    decide
  · exact newline_not_mem_character c h

theorem named_inj {x : Char} (hc : (c, x) ∈ named) (hd : (d, x) ∈ named) : c = d := by
  have key : ∀ p ∈ named, ∀ q ∈ named, p.2 = q.2 → p.1 = q.1 := by decide
  exact key _ hc _ hd rfl

theorem not_mem_named_u : (c, 'u') ∉ named := by
  have key : ∀ p ∈ named, p.2 ≠ 'u' := by decide
  exact fun h => key _ h rfl

theorem codePoint_append_inj (h : (codePoint c).toList ++ s = (codePoint d).toList ++ t) :
    c = d ∧ s = t := by
  rw [toList_codePoint, toList_codePoint] at h
  simp only [List.cons_append, List.cons.injEq, true_and, List.append_assoc, List.nil_append] at h
  have hbrace : ∀ n, '\x7d' ∉ Nat.toDigits 16 n := by
    intro n hmem
    obtain ⟨e, he, hdigit⟩ := exists_digit_of_mem_toDigits (by decide) hmem
    have key : ∀ e < 16, '\x7d' ≠ e.digitChar := by decide
    exact key e he hdigit
  obtain ⟨hnumeral, hrest⟩ := append_inj_of_not_mem (hbrace _) (hbrace _) h
  have hnumber : c.toNat = d.toNat := toDigits_inj (by decide) (by decide) hnumeral
  exact ⟨Char.toNat_inj.1 hnumber, hrest⟩

/-- **Quoted characters** tell where they end, whatever stands behind them. -/
theorem character_append_inj (h : (character c).toList ++ s = (character d).toList ++ t) :
    c = d ∧ s = t := by
  rcases character_cases c with ⟨hc, hcne, _⟩ | ⟨x, hx, hc⟩ | hc <;>
    rcases character_cases d with ⟨hd, hdne, _⟩ | ⟨y, hy, hd⟩ | hd <;> rw [hc, hd] at h
  case inl.inl => exact List.cons.inj h
  case inl.inr.inl => exact absurd (List.cons.inj h).1 hcne
  case inl.inr.inr =>
    rw [toList_codePoint] at h
    exact absurd (List.cons.inj h).1 hcne
  case inr.inl.inl => exact absurd (List.cons.inj h).1.symm hdne
  case inr.inl.inr.inl =>
    obtain ⟨rfl, hrest⟩ := List.cons.inj (List.cons.inj h).2
    exact ⟨named_inj hx hy, hrest⟩
  case inr.inl.inr.inr =>
    rw [toList_codePoint] at h
    obtain ⟨rfl, _⟩ := List.cons.inj (List.cons.inj h).2
    exact absurd hx not_mem_named_u
  case inr.inr.inl =>
    rw [toList_codePoint] at h
    exact absurd (List.cons.inj h).1.symm hdne
  case inr.inr.inr.inl =>
    rw [toList_codePoint] at h
    obtain ⟨rfl, _⟩ := List.cons.inj (List.cons.inj h).2
    exact absurd hy not_mem_named_u
  case inr.inr.inr.inr => exact codePoint_append_inj h

end Quoted

end FiniteAutomata
