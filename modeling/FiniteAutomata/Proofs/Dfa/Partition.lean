import Mathlib.Data.Finset.Card
import Mathlib.Data.List.Forall2
import FiniteAutomata.Dfa.Partition
import FiniteAutomata.Proofs.Returns
/-!
# Refinement of partitions

`Parts p count same` says that the blocks of `p` hold the rows below `count`, each once, and that rows
share a block if they are the `same`. A pass parts blocks by where their rows lead
(`parts_refine`), so after `k` passes rows share a block if they are the same up to `k` steps
(`after_returns`), and a pass that adds no block is the last that is needed (`settles_of_length_eq`).
-/

namespace FiniteAutomata

/-! ## Lists parted by a key -/

section SplitBy

variable {α β γ : Type} [DecidableEq β] {key : α → β} {l part : List α} {a b : α}

theorem splitBy_cons (key : α → β) (a : α) (l : List α) :
    splitBy key (a :: l) =
      (a :: l.filter (key · = key a)) :: splitBy key (l.filter (key · ≠ key a)) := by
  rw [splitBy]

theorem splitBy_induction (key : α → β) {P : List α → Prop} (nil : P [])
    (cons : ∀ a l, P (l.filter (key · ≠ key a)) → P (a :: l)) (l : List α) : P l := by
  induction hn : l.length using Nat.strongRecOn generalizing l with
  | _ n ih =>
    cases l with
    | nil => exact nil
    | cons a l =>
      have hle := List.length_filter_le (key · ≠ key a) l
      rw [List.length_cons] at hn
      exact cons a l (ih _ (by omega) _ rfl)

theorem splitBy_map (key : γ → β) (f : α → γ) (l : List α) :
    splitBy key (l.map f) = (splitBy (fun a => key (f a)) l).map (·.map f) := by
  induction l using splitBy_induction fun a => key (f a) with
  | nil => simp [splitBy]
  | cons a l ih =>
    rw [List.map_cons, splitBy_cons, splitBy_cons, List.map_cons, ← ih]
    simp [List.filter_map, Function.comp_def]

theorem ne_nil_of_mem_splitBy (h : part ∈ splitBy key l) : part ≠ [] := by
  induction l using splitBy_induction key with
  | nil => simp [splitBy] at h
  | cons a l ih =>
    rw [splitBy_cons] at h
    rcases List.mem_cons.1 h with rfl | h
    · exact List.cons_ne_nil _ _
    · exact ih h

theorem sublist_of_mem_splitBy (h : part ∈ splitBy key l) : part.Sublist l := by
  induction l using splitBy_induction key with
  | nil => simp [splitBy] at h
  | cons a l ih =>
    rw [splitBy_cons] at h
    rcases List.mem_cons.1 h with rfl | h
    · exact List.filter_sublist.cons_cons a
    · exact ((ih h).trans List.filter_sublist).cons a

theorem exists_mem_splitBy (key : α → β) (h : a ∈ l) : ∃ part ∈ splitBy key l, a ∈ part := by
  induction l using splitBy_induction key with
  | nil => cases h
  | cons b l ih =>
    rw [splitBy_cons]
    by_cases hkey : key a = key b
    · refine ⟨_, List.mem_cons_self, ?_⟩
      rcases List.mem_cons.1 h with rfl | h
      · exact List.mem_cons_self
      · exact List.mem_cons_of_mem b (List.mem_filter.2 ⟨h, decide_eq_true hkey⟩)
    · have hmem : a ∈ l := (List.mem_cons.1 h).resolve_left fun e => hkey (congrArg key e)
      obtain ⟨part, hpart, ha⟩ := ih (List.mem_filter.2 ⟨hmem, decide_eq_true hkey⟩)
      exact ⟨part, List.mem_cons_of_mem _ hpart, ha⟩

theorem mem_part_iff (h : part ∈ splitBy key l) (ha : a ∈ part) :
    b ∈ part ↔ b ∈ l ∧ key a = key b := by
  induction l using splitBy_induction key with
  | nil => simp [splitBy] at h
  | cons d l ih =>
    rw [splitBy_cons] at h
    rcases List.mem_cons.1 h with rfl | h
    · have hkey : ∀ {x}, x ∈ d :: l.filter (key · = key d) ↔ x ∈ d :: l ∧ key x = key d := by
        intro x
        by_cases hx : x = d
        · simp [hx]
        · simp [hx]
      rw [hkey] at ha ⊢
      rw [ha.2, eq_comm]
    · rw [ih h]
      have hne : key a ≠ key d := by
        have := (sublist_of_mem_splitBy h).subset ha
        simpa using (List.mem_filter.1 this).2
      simp only [List.mem_filter, List.mem_cons, decide_eq_true_eq]
      constructor
      · rintro ⟨⟨hb, _⟩, hab⟩
        exact ⟨Or.inr hb, hab⟩
      · rintro ⟨rfl | hb, hab⟩
        · exact absurd hab hne
        · exact ⟨⟨hb, hab ▸ hne⟩, hab⟩

theorem splitBy_pairwise (key : α → β) (l : List α) :
    (splitBy key l).Pairwise fun part part' => ∀ a ∈ part, ∀ b ∈ part', key a ≠ key b := by
  induction l using splitBy_induction key with
  | nil =>
    rw [splitBy]
    exact .nil
  | cons d l ih =>
    rw [splitBy_cons]
    refine List.pairwise_cons.2 ⟨fun part hpart a ha b hb => ?_, ih⟩
    have hb := (sublist_of_mem_splitBy hpart).subset hb
    have hkey : key a = key d := by
      rcases List.mem_cons.1 ha with rfl | ha
      · rfl
      · simpa using (List.mem_filter.1 ha).2
    rw [hkey]
    exact Ne.symm (by simpa using (List.mem_filter.1 hb).2)

theorem splitBy_ne_nil (h : l ≠ []) : splitBy key l ≠ [] := by
  obtain ⟨a, l, rfl⟩ := List.exists_cons_of_ne_nil h
  rw [splitBy_cons]
  exact List.cons_ne_nil _ _

theorem key_eq_of_length_splitBy (h : (splitBy key l).length = 1) (ha : a ∈ l) (hb : b ∈ l) :
    key a = key b := by
  obtain ⟨part, hpart⟩ := List.length_eq_one_iff.1 h
  have hone : ∀ part' ∈ splitBy key l, part' = part := by
    intro part' hmem
    rw [hpart] at hmem
    exact List.mem_singleton.1 hmem
  obtain ⟨pa, hpa, ha'⟩ := exists_mem_splitBy key ha
  obtain ⟨pb, hpb, hb'⟩ := exists_mem_splitBy key hb
  obtain rfl : pa = pb := (hone pa hpa).trans (hone pb hpb).symm
  exact ((mem_part_iff hpa ha').1 hb').2

end SplitBy

section FlatMap

variable {α β : Type} {f : α → List β} {l : List α} {a : α}

theorem length_le_length_flatMap (h : ∀ a ∈ l, f a ≠ []) : l.length ≤ (l.flatMap f).length := by
  induction l with
  | nil => exact Nat.le_refl 0
  | cons a l ih =>
    have hpos := List.length_pos_of_ne_nil (h a List.mem_cons_self)
    have hle := ih fun b hb => h b (List.mem_cons_of_mem a hb)
    rw [List.flatMap_cons, List.length_append, List.length_cons]
    omega

theorem length_eq_one_of_length_flatMap (h : ∀ a ∈ l, f a ≠ [])
    (hlength : (l.flatMap f).length = l.length) (ha : a ∈ l) : (f a).length = 1 := by
  induction l with
  | nil => cases ha
  | cons b l ih =>
    have hpos := List.length_pos_of_ne_nil (h b List.mem_cons_self)
    have htail : ∀ b ∈ l, f b ≠ [] := fun d hd => h d (List.mem_cons_of_mem b hd)
    have hle := length_le_length_flatMap htail
    rw [List.flatMap_cons, List.length_append, List.length_cons] at hlength
    rcases List.mem_cons.1 ha with rfl | ha
    · omega
    · exact ih htail (by omega) ha

end FlatMap

theorem forall₂_imp_of_mem {α β : Type} {R S : α → β → Prop} {l : List α} {m : List β}
    (h : List.Forall₂ R l m) (himp : ∀ a ∈ l, ∀ b ∈ m, R a b → S a b) : List.Forall₂ S l m := by
  induction h with
  | nil => exact .nil
  | cons hab _ ih =>
    refine .cons (himp _ List.mem_cons_self _ List.mem_cons_self hab) (ih fun a ha b hb => ?_)
    exact himp a (List.mem_cons_of_mem _ ha) b (List.mem_cons_of_mem _ hb)

/-! ## Partitions -/

/-- The number of the block of a row. -/
def Partition.number (p : Partition) (r : Row) : Nat := p.findIdx (r ∈ ·)

theorem Partition.mem_number {p : Partition} {r : Row} (hlt : p.number r < p.length) :
    r ∈ p[p.number r] := by
  have := List.findIdx_getElem (p := fun b : Block => decide (r ∈ b)) (w := hlt)
  exact of_decide_eq_true this

/-- The blocks hold the rows below `count`, each once; rows share a block if they are the `same`. -/
structure Parts (p : Partition) (count : Nat) (same : Row → Row → Prop) : Prop where
  nonempty : ∀ b ∈ p, b ≠ []
  ascending : ∀ b ∈ p, b.Pairwise (· < ·)
  cover : ∀ r, (∃ b ∈ p, r ∈ b) ↔ r < count
  disjoint : p.Pairwise fun b b' => ∀ r ∈ b, r ∉ b'
  mem_iff : ∀ b ∈ p, ∀ r ∈ b, ∀ s, s ∈ b ↔ s < count ∧ same r s

namespace Parts

variable {p : Partition} {count : Nat} {same same' : Row → Row → Prop} {r s : Row}

theorem number_lt (h : Parts p count same) (hr : r < count) : p.number r < p.length := by
  obtain ⟨b, hb, hrb⟩ := (h.cover r).2 hr
  exact List.findIdx_lt_length_of_exists ⟨b, hb, decide_eq_true hrb⟩

theorem number_eq_of_mem (h : Parts p count same) {i : Nat} (hi : i < p.length) (hr : r ∈ p[i]) :
    p.number r = i := by
  have hlt : r < count := (h.cover r).1 ⟨_, List.getElem_mem hi, hr⟩
  have hmem := Partition.mem_number (h.number_lt hlt)
  rcases Nat.lt_trichotomy (p.number r) i with hij | heq | hij
  · exact absurd hr (List.pairwise_iff_getElem.1 h.disjoint _ _ (h.number_lt hlt) hi hij r hmem)
  · exact heq
  · exact absurd hmem (List.pairwise_iff_getElem.1 h.disjoint _ _ hi (h.number_lt hlt) hij r hr)

theorem number_eq_iff (h : Parts p count same) (hr : r < count) (hs : s < count) :
    p.number r = p.number s ↔ same r s := by
  have hmem := Partition.mem_number (h.number_lt hr)
  have hiff := h.mem_iff _ (List.getElem_mem (h.number_lt hr)) r hmem s
  constructor
  · intro heq
    have hmem' := Partition.mem_number (h.number_lt hs)
    simp only [← heq] at hmem'
    exact (hiff.1 hmem').2
  · intro hsame
    exact (h.number_eq_of_mem (h.number_lt hr) (hiff.2 ⟨hs, hsame⟩)).symm

theorem length_le (h : Parts p count same) : p.length ≤ count := by
  have hsurj : Set.SurjOn p.number (Finset.range count) (Finset.range p.length) := by
    intro i hi
    have hi : i < p.length := Finset.mem_range.1 hi
    obtain ⟨r, hr⟩ := List.exists_mem_of_ne_nil _ (h.nonempty _ (List.getElem_mem hi))
    have hlt := (h.cover r).1 ⟨_, List.getElem_mem hi, hr⟩
    exact ⟨r, Finset.mem_coe.2 (Finset.mem_range.2 hlt), h.number_eq_of_mem hi hr⟩
  simpa using Finset.card_le_card_of_surjOn _ hsurj

theorem blockOf_index (h : Parts p count same) (hr : r < count) :
    Partition.blockOf (p.index count) r = .ok (p.number r) := by
  obtain ⟨b, hb, hrb⟩ := (h.cover r).2 hr
  have hfind : p.findIdx? (r ∈ ·) = some (p.number r) :=
    List.findIdx?_eq_some_of_exists ⟨b, hb, decide_eq_true hrb⟩
  have hget : (p.index count)[r]? = some (some (p.number r)) := by
    simp [Partition.index, hr, hfind]
  unfold Partition.blockOf
  rw [hget]

theorem congr (h : Parts p count same) (hsame : ∀ r < count, ∀ s < count, same r s ↔ same' r s) :
    Parts p count same' := by
  refine { h with mem_iff := fun b hb r hr s => ?_ }
  rw [h.mem_iff b hb r hr s]
  have hlt := (h.cover r).1 ⟨b, hb, hr⟩
  exact and_congr_right fun hs => hsame r hlt s hs

section Split

variable {β : Type} [DecidableEq β] {key : Row → β}

theorem split (h : Parts p count same) (key : Row → β) :
    Parts (p.flatMap (splitBy key)) count fun r s => same r s ∧ key r = key s := by
  have hsub : ∀ {b part r}, part ∈ splitBy key b → r ∈ part → r ∈ b :=
    fun hpart hr => (sublist_of_mem_splitBy hpart).subset hr
  constructor
  case nonempty =>
    intro part hpart
    obtain ⟨b, _, hpart⟩ := List.mem_flatMap.1 hpart
    exact ne_nil_of_mem_splitBy hpart
  case ascending =>
    intro part hpart
    obtain ⟨b, hb, hpart⟩ := List.mem_flatMap.1 hpart
    exact (h.ascending b hb).sublist (sublist_of_mem_splitBy hpart)
  case cover =>
    intro r
    rw [← h.cover r]
    constructor
    · rintro ⟨part, hpart, hr⟩
      obtain ⟨b, hb, hpart⟩ := List.mem_flatMap.1 hpart
      exact ⟨b, hb, hsub hpart hr⟩
    · rintro ⟨b, hb, hr⟩
      obtain ⟨part, hpart, hr⟩ := exists_mem_splitBy key hr
      exact ⟨part, List.mem_flatMap.2 ⟨b, hb, hpart⟩, hr⟩
  case disjoint =>
    rw [List.pairwise_flatMap]
    refine ⟨fun b _ => (splitBy_pairwise key b).imp fun hne r hr hr' => hne r hr r hr' rfl, ?_⟩
    exact h.disjoint.imp fun hdisj part hpart part' hpart' r hr hr' =>
      hdisj r (hsub hpart hr) (hsub hpart' hr')
  case mem_iff =>
    intro part hpart r hr s
    obtain ⟨b, hb, hpart⟩ := List.mem_flatMap.1 hpart
    rw [mem_part_iff hpart hr, h.mem_iff b hb r (hsub hpart hr), and_assoc]

theorem splitBy_ne_nil_of_mem (h : Parts p count same) (key : Row → β) :
    ∀ b ∈ p, splitBy key b ≠ [] :=
  fun b hb => splitBy_ne_nil (h.nonempty b hb)

theorem key_eq_of_length_split (h : Parts p count same)
    (hlength : (p.flatMap (splitBy key)).length = p.length) (hr : r < count) (hs : s < count)
    (hsame : same r s) : key r = key s := by
  obtain ⟨b, hb, hrb⟩ := (h.cover r).2 hr
  have hsb : s ∈ b := (h.mem_iff b hb r hrb s).2 ⟨hs, hsame⟩
  have hone := length_eq_one_of_length_flatMap (h.splitBy_ne_nil_of_mem key) hlength hb
  exact key_eq_of_length_splitBy hone hrb hsb

end Split

end Parts

/-! ## Passes -/

namespace TransitionTable

variable {t : TransitionTable} {p : Partition} {same : Row → Row → Prop} {r s : Row} {k : Nat}

/-- The targets of a row; none of a number that is not a row. -/
def targetsOf (t : TransitionTable) (r : Row) : List Row := t.targets[r]?.getD []

/-- The numbers of the blocks that a row leads to. -/
def key (t : TransitionTable) (p : Partition) (r : Row) : List Nat := (t.targetsOf r).map p.number

/-- The blocks of `p`, parted by the blocks that their rows lead to. -/
def parted (t : TransitionTable) (p : Partition) : Partition := p.flatMap (splitBy (t.key p))

/-- All targets are rows. -/
def Closed (t : TransitionTable) : Prop := ∀ r < t.size, ∀ x ∈ t.targetsOf r, x < t.size

/-- Rows that agree on acceptance as far as `k` steps lead. -/
def SameUpTo (t : TransitionTable) : Nat → Row → Row → Prop
  | 0, r, s => t.isAccept r = t.isAccept s
  | k + 1, r, s => SameUpTo t k r s ∧ List.Forall₂ (SameUpTo t k) (t.targetsOf r) (t.targetsOf s)

theorem row_eq (hr : r < t.size) : t.row r = .ok (t.targetsOf r) := by
  unfold row targetsOf
  rw [show t.targets[r]? = some t.targets[r] from Array.getElem?_eq_getElem hr]
  rfl

theorem signature_eq (h : Parts p t.size same) (ht : t.Closed) (hr : r < t.size) :
    t.signature (p.index t.size) r = .ok (t.key p r) := by
  unfold signature
  rw [row_eq hr]
  exact mapM_eq_ok fun x hx => h.blockOf_index (ht r hr x hx)

theorem flatten_mapM_splitBy {key : Row → List Nat} {signature : Row → Checked (List Nat)}
    (h : ∀ b ∈ p, ∀ r ∈ b, signature r = .ok (key r)) :
    (do
      let parts ← p.mapM fun block => do
        let signed ← block.mapM fun r => return (← signature r, r)
        return (splitBy Prod.fst signed).map (·.map Prod.snd)
      return parts.flatten) = (.ok (p.flatMap (splitBy key)) : Checked Partition) := by
  have hblock : ∀ b ∈ p, (do
      let signed ← b.mapM fun r => return (← signature r, r)
      return (splitBy Prod.fst signed).map (·.map Prod.snd)) =
        (.ok (splitBy key b) : Checked (List Block)) := by
    intro b hb
    have hsigned : b.mapM (fun r => do return (← signature r, r)) =
        (.ok (b.map fun r => (key r, r)) : Checked _) := by
      refine mapM_eq_ok fun r hr => ?_
      rw [h b hb r hr]
      rfl
    rw [hsigned]
    show Except.ok _ = _
    rw [splitBy_map, List.map_map]
    simp [Function.comp_def]
  rw [mapM_eq_ok hblock]
  rfl

/-- A pass parts the blocks by the blocks that their rows lead to. -/
theorem refine_eq (h : Parts p t.size same) (ht : t.Closed) :
    t.refine p = .ok (t.parted p) :=
  flatten_mapM_splitBy fun b hb _ hr => signature_eq h ht ((h.cover _).1 ⟨b, hb, hr⟩)

/-! Rows that agree up to one number of steps more or less. -/

theorem SameUpTo.of_le {m : Nat} (h : t.SameUpTo k r s) (hm : m ≤ k) : t.SameUpTo m r s := by
  induction hm with
  | refl => exact h
  | step _ ih => exact ih h.1

/-- If one more step tells no rows apart, no number of steps does. -/
theorem SameUpTo.of_stable (ht : t.Closed)
    (hstable : ∀ r < t.size, ∀ s < t.size, t.SameUpTo k r s → t.SameUpTo (k + 1) r s)
    (h : t.SameUpTo k r s) (hr : r < t.size) (hs : s < t.size) (m : Nat) : t.SameUpTo m r s := by
  have hmore : ∀ n r s, r < t.size → s < t.size → t.SameUpTo k r s → t.SameUpTo (k + n) r s := by
    intro n
    induction n with
    | zero => exact fun _ _ _ _ h => h
    | succ n ih =>
      intro r s hr hs h
      refine ⟨ih r s hr hs h, forall₂_imp_of_mem (hstable r hr s hs h).2 fun x hx y hy hxy => ?_⟩
      exact ih x y (ht r hr x hx) (ht s hs y hy) hxy
  exact (hmore m r s hr hs h).of_le (Nat.le_add_left m k)

theorem sameUpTo_succ_iff (h : Parts p t.size (t.SameUpTo k)) (ht : t.Closed) (hr : r < t.size)
    (hs : s < t.size) : t.SameUpTo (k + 1) r s ↔ t.SameUpTo k r s ∧ t.key p r = t.key p s := by
  have hnumber : ∀ x ∈ t.targetsOf r, ∀ y ∈ t.targetsOf s,
      p.number x = p.number y ↔ t.SameUpTo k x y :=
    fun x hx y hy => h.number_eq_iff (ht r hr x hx) (ht s hs y hy)
  refine and_congr_right fun _ => ?_
  unfold key
  rw [← List.forall₂_eq_eq_eq, List.forall₂_map_left_iff, List.forall₂_map_right_iff]
  constructor
  · exact fun hall => forall₂_imp_of_mem hall fun x hx y hy => (hnumber x hx y hy).2
  · exact fun hall => forall₂_imp_of_mem hall fun x hx y hy => (hnumber x hx y hy).1

/-- What a pass leaves together agrees up to one more step. -/
theorem parts_refine (h : Parts p t.size (t.SameUpTo k)) (ht : t.Closed) :
    Parts (t.parted p) t.size (t.SameUpTo (k + 1)) :=
  (h.split _).congr fun _ hr _ hs => (sameUpTo_succ_iff h ht hr hs).symm

theorem parts_initial (t : TransitionTable) : Parts t.initialPartition t.size (t.SameUpTo 0) := by
  generalize hyes : (List.range t.size).filter t.isAccept = yes
  generalize hno : (List.range t.size).filter (!t.isAccept ·) = no
  have hpartition : t.initialPartition = [yes, no].filter (!·.isEmpty) := by
    unfold initialPartition
    rw [List.partition_eq_filter_filter, ← hyes, ← hno]
    rfl
  have hmem : ∀ b ∈ t.initialPartition, b ≠ [] ∧ ∃ v, ∀ r, r ∈ b ↔ r < t.size ∧ t.isAccept r = v := by
    intro b hb
    rw [hpartition] at hb
    obtain ⟨hb, hne⟩ := List.mem_filter.1 hb
    refine ⟨by simpa using hne, ?_⟩
    rcases List.mem_cons.1 hb with rfl | hb
    · exact ⟨true, fun r => by simp [← hyes]⟩
    · obtain rfl := List.mem_singleton.1 hb
      exact ⟨false, fun r => by simp [← hno]⟩
  have hkeep : ∀ {b r}, b ∈ [yes, no] → r ∈ b → b ∈ t.initialPartition := by
    intro b r hb hr
    rw [hpartition]
    refine List.mem_filter.2 ⟨hb, ?_⟩
    simpa using List.ne_nil_of_mem hr
  constructor
  case nonempty => exact fun b hb => (hmem b hb).1
  case ascending =>
    intro b hb
    rw [hpartition] at hb
    have hsorted : (List.range t.size).Pairwise (· < ·) := List.pairwise_lt_range
    rcases List.mem_cons.1 (List.mem_filter.1 hb).1 with rfl | hb
    · exact hyes ▸ hsorted.filter _
    · obtain rfl := List.mem_singleton.1 hb
      exact hno ▸ hsorted.filter _
  case cover =>
    intro r
    constructor
    · rintro ⟨b, hb, hr⟩
      obtain ⟨_, v, hv⟩ := hmem b hb
      exact ((hv r).1 hr).1
    · intro hr
      cases haccept : t.isAccept r with
      | true =>
        have hr' : r ∈ yes := by simp [← hyes, hr, haccept]
        exact ⟨yes, hkeep (by simp) hr', hr'⟩
      | false =>
        have hr' : r ∈ no := by simp [← hno, hr, haccept]
        exact ⟨no, hkeep (by simp) hr', hr'⟩
  case disjoint =>
    rw [hpartition]
    refine List.Pairwise.filter _ (List.pairwise_pair.2 fun r hr hr' => ?_)
    simp only [← hyes, ← hno, List.mem_filter] at hr hr'
    simp [hr.2] at hr'
  case mem_iff =>
    intro b hb r hr s
    obtain ⟨_, v, hv⟩ := hmem b hb
    rw [hv s, ← ((hv r).1 hr).2]
    exact and_congr_right fun _ => eq_comm

/-- The partition after `k` passes. -/
def after (t : TransitionTable) : Nat → Checked Partition
  | 0 => .ok t.initialPartition
  | k + 1 => do t.refine (← t.after k)

/-- **Passes.** After `k` of them, rows are together if they agree up to `k` steps. -/
theorem after_returns (ht : t.Closed) (k : Nat) :
    Returns (t.after k) fun p => Parts p t.size (t.SameUpTo k) := by
  induction k with
  | zero => exact .pure (parts_initial t)
  | succ k ih => exact ih.bind fun p hp => ⟨_, refine_eq hp ht, parts_refine hp ht⟩

theorem after_succ (hp : t.after k = .ok p) (ht : t.Closed) :
    t.after (k + 1) = .ok (t.parted p) := by
  show (do t.refine (← t.after k)) = _
  rw [hp]
  exact refine_eq ((after_returns ht k).of_eq_ok hp) ht

/-- The results of passes over `p`, the partition after `k` passes. All of them but the last add
blocks, and in the end rows are together if no number of steps tells them apart. -/
structure Settles (t : TransitionTable) (k : Nat) (p : Partition) (passes : List Partition)
    (last : Partition) : Prop where
  after_eq : ∀ {i q}, passes[i]? = some q → t.after (k + i + 1) = .ok q
  getLast_eq : passes.getLast? = some last
  grows : p.length + passes.length ≤ last.length + 1
  parts : Parts last t.size fun r s => ∀ m, t.SameUpTo m r s

/-- A pass that adds no block is the last. -/
theorem settles_of_length_eq (hp : t.after k = .ok p) (ht : t.Closed)
    (hlength : (t.parted p).length = p.length) : t.Settles k p [t.parted p] (t.parted p) := by
  have h := (after_returns ht k).of_eq_ok hp
  have hstable : ∀ r < t.size, ∀ s < t.size, t.SameUpTo k r s → t.SameUpTo (k + 1) r s :=
    fun r hr s hs hsame => (sameUpTo_succ_iff h ht hr hs).2
      ⟨hsame, h.key_eq_of_length_split hlength hr hs hsame⟩
  constructor
  case after_eq =>
    intro i q hq
    obtain ⟨hi, rfl⟩ := List.getElem?_eq_some_iff.1 hq
    obtain rfl : i = 0 := Nat.lt_one_iff.1 hi
    exact after_succ hp ht
  case getLast_eq => rfl
  case grows => exact Nat.le_of_eq (congrArg (· + 1) hlength.symm)
  case parts =>
    refine (parts_refine h ht).congr fun r hr s hs => ⟨fun hsame m => ?_, fun hall => hall _⟩
    exact SameUpTo.of_stable ht hstable hsame.1 hr hs m

theorem Settles.cons {q last : Partition} {passes : List Partition} (hq : t.after (k + 1) = .ok q)
    (hlt : p.length < q.length) (h : t.Settles (k + 1) q passes last) :
    t.Settles k p (q :: passes) last := by
  constructor
  case after_eq =>
    intro i x hx
    cases i with
    | zero =>
      obtain rfl : q = x := Option.some.inj hx
      exact hq
    | succ i =>
      rw [← Nat.add_assoc, Nat.add_right_comm k i 1]
      exact h.after_eq hx
  case getLast_eq =>
    rw [List.getLast?_cons, h.getLast_eq]
    rfl
  case grows =>
    have := h.grows
    rw [List.length_cons]
    omega
  case parts => exact h.parts

theorem passesFrom_succ {bound : Nat} {q : Partition} (h : t.refine p = .ok q) :
    t.passesFrom (bound + 1) p =
      if q.length = p.length then .ok [q] else (do return q :: (← t.passesFrom bound q)) := by
  rw [passesFrom, h]
  rfl

/-- **Loop.** As long as there is room for more blocks, passes are left. -/
theorem passesFrom_returns {bound : Nat} (hp : t.after k = .ok p) (ht : t.Closed)
    (hbound : t.size < p.length + bound) :
    Returns (t.passesFrom bound p) fun passes => ∃ last, t.Settles k p passes last := by
  induction bound generalizing p k with
  | zero =>
    have := ((after_returns ht k).of_eq_ok hp).length_le
    omega
  | succ bound ih =>
    have h := (after_returns ht k).of_eq_ok hp
    have hle : p.length ≤ (t.parted p).length :=
      length_le_length_flatMap (h.splitBy_ne_nil_of_mem (t.key p))
    rw [passesFrom_succ (refine_eq h ht)]
    split
    · rename_i hlength
      exact .pure ⟨_, settles_of_length_eq hp ht hlength⟩
    · rename_i hlength
      refine (ih (after_succ hp ht) (by omega)).bind fun passes hpasses => .pure ?_
      obtain ⟨last, hlast⟩ := hpasses
      exact ⟨last, hlast.cons (after_succ hp ht) (by omega)⟩

theorem passes_returns (ht : t.Closed) (hpos : 0 < t.size) :
    Returns t.passes fun passes => ∃ last, t.Settles 0 t.initialPartition passes last := by
  have hlength := Nat.lt_of_le_of_lt (Nat.zero_le _) ((parts_initial t).number_lt hpos)
  exact passesFrom_returns rfl ht (by omega)

theorem stablePartition_eq {passes : List Partition} {last : Partition} (h : t.passes = .ok passes)
    (hlast : passes.getLast? = some last) : t.stablePartition = .ok last := by
  unfold stablePartition
  rw [h]
  show Except.ok (passes.getLast?.getD _) = _
  rw [hlast]
  rfl

/-- **Refinement.** The stable partition has rows together that no number of steps tells apart. -/
theorem stablePartition_returns (ht : t.Closed) (hpos : 0 < t.size) :
    Returns t.stablePartition fun p => Parts p t.size fun r s => ∀ k, t.SameUpTo k r s := by
  obtain ⟨passes, hpasses, last, h⟩ := passes_returns ht hpos
  exact ⟨last, stablePartition_eq hpasses h.getLast_eq, h.parts⟩

end TransitionTable

end FiniteAutomata
