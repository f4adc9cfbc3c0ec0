import FiniteAutomata.Dfa.Minimal
import FiniteAutomata.Proofs.Dfa.Table
/-!
# Blocks that become states

`minimal` numbers the blocks of the stable partition anew: the block of the start first, then the
others by their smallest member, the dead one left out (`IsLiveList`). `IsQuotient dfa m block` says
what comes of it without mention of lists: which rows the states of `m` stand for, and that targets
and acceptance are those of any row of a block.

Main statement: `minimal_returns`.
-/

namespace FiniteAutomata.Dfa

variable {dfa : Dfa} {p : Partition} {count start dead : Nat} {r s i m : Nat} {c : Char}
  {B : LedBlock} {live : List LedBlock}

/-! ## Blocks and their numbers -/

/-- A block of the partition with its number and smallest member. -/
structure IsLed (p : Partition) (B : LedBlock) : Prop where
  number_lt : B.number < p.length
  members_eq : p[B.number] = B.members
  least_eq : B.members.head? = some B.least

theorem ledBlocks_returns (hne : ∀ b ∈ p, b ≠ []) :
    Returns (ledBlocks p) fun blocks => (∀ B ∈ blocks, IsLed p B) ∧
      (∀ i < p.length, ∃ B ∈ blocks, B.number = i) ∧
      blocks.Pairwise fun B B' => B.number ≠ B'.number := by
  have hmap : ledBlocks p = .ok (p.zipIdx.map fun numbered =>
      ⟨numbered.2, numbered.1.headD 0, numbered.1⟩) := by
    refine mapM_eq_ok ?_
    rintro ⟨members, number⟩ hmem
    have hb : members ∈ p := (List.mem_zipIdx' hmem).2 ▸ List.getElem_mem _
    obtain ⟨least, rest, rfl⟩ := List.exists_cons_of_ne_nil (hne members hb)
    rfl
  refine ⟨_, hmap, ?_, ?_, ?_⟩
  · intro B hB
    obtain ⟨⟨members, number⟩, hmem, rfl⟩ := List.mem_map.1 hB
    obtain ⟨hlt, heq⟩ := List.mem_zipIdx' hmem
    obtain ⟨least, rest, rfl⟩ := List.exists_cons_of_ne_nil (hne members (heq ▸ List.getElem_mem _))
    exact ⟨hlt, heq.symm, rfl⟩
  · intro i hi
    refine ⟨_, List.mem_map.2 ⟨(p[i], i), ?_, rfl⟩, rfl⟩
    exact List.mk_mem_zipIdx_iff_getElem?.2 (List.getElem?_eq_getElem hi)
  · refine List.pairwise_map.2 (List.pairwise_iff_getElem.2 fun i j hi hj hij => ?_)
    simp only [List.getElem_zipIdx]
    omega

/-- The blocks of the states of the minimal automaton, in order. -/
structure IsLiveList (p : Partition) (start dead : Nat) (live : List LedBlock) : Prop where
  led : ∀ B ∈ live, IsLed p B
  mem_iff : ∀ i < p.length, (∃ B ∈ live, B.number = i) ↔ i = start ∨ i ≠ dead
  distinct : live.Pairwise fun B B' => B.number ≠ B'.number
  head : ∃ B rest, live = B :: rest ∧ B.number = start ∧ rest.Pairwise (·.least ≤ ·.least)

theorem filter_number_eq {blocks : List LedBlock} {B : LedBlock}
    (hdistinct : blocks.Pairwise fun B B' => B.number ≠ B'.number) (hB : B ∈ blocks) :
    blocks.filter (·.number = B.number) = [B] := by
  induction blocks with
  | nil => cases hB
  | cons A rest ih =>
    obtain ⟨hA, hrest⟩ := List.pairwise_cons.1 hdistinct
    rcases List.mem_cons.1 hB with rfl | hB
    · have hnil : rest.filter (·.number = B.number) = [] := by
        rw [List.filter_eq_nil_iff]
        intro B' hB' hsame
        exact hA B' hB' (of_decide_eq_true hsame).symm
      rw [List.filter_cons_of_pos (by simp), hnil]
    · have hne : A.number ≠ B.number := hA B hB
      rw [List.filter_cons_of_neg (by simpa using hne)]
      exact ih hrest hB

theorem isLiveList_liveBlocks {blocks : List LedBlock} (hled : ∀ B ∈ blocks, IsLed p B)
    (hall : ∀ i < p.length, ∃ B ∈ blocks, B.number = i)
    (hdistinct : blocks.Pairwise fun B B' => B.number ≠ B'.number) (hstart : start < p.length) :
    IsLiveList p start dead (liveBlocks blocks start dead) := by
  have hmem : ∀ B, B ∈ liveBlocks blocks start dead ↔
      B ∈ blocks ∧ (B.number = start ∨ B.number ≠ dead) := by
    intro B
    unfold liveBlocks
    rw [List.mem_append, List.mem_mergeSort, List.mem_filter, List.mem_filter]
    simp only [decide_eq_true_eq]
    tauto
  constructor
  case led => exact fun B hB => hled B ((hmem B).1 hB).1
  case mem_iff =>
    intro i hi
    constructor
    · rintro ⟨B, hB, rfl⟩
      exact ((hmem B).1 hB).2
    · intro h
      obtain ⟨B, hB, rfl⟩ := hall i hi
      exact ⟨B, (hmem B).2 ⟨hB, h⟩, rfl⟩
  case distinct =>
    unfold liveBlocks
    rw [List.pairwise_append, (List.mergeSort_perm _ _).pairwise_iff Ne.symm]
    refine ⟨hdistinct.filter _, hdistinct.filter _, fun B hB B' hB' => ?_⟩
    have hnumber := (List.mem_filter.1 hB).2
    have hnumber' := (List.mem_filter.1 (List.mem_mergeSort.1 hB')).2
    simp only [decide_eq_true_eq] at hnumber hnumber'
    rw [hnumber]
    exact hnumber'.1.symm
  case head =>
    obtain ⟨B, hblock, hnumber⟩ := hall start hstart
    have hB : blocks.filter (·.number = start) = [B] := by
      rw [← hnumber]
      exact filter_number_eq hdistinct hblock
    unfold liveBlocks
    rw [hB]
    refine ⟨B, _, rfl, hnumber, ?_⟩
    have hsorted := @List.pairwise_mergeSort LedBlock (fun B B' => decide (B.least ≤ B'.least))
      (fun a b c => by simpa using Nat.le_trans) (fun a b => by simpa using Nat.le_total _ _)
      (blocks.filter fun b => b.number ≠ start ∧ b.number ≠ dead)
    simpa using hsorted

/-! ## Edges between blocks -/

/-- The new number of a block that becomes a state. -/
def newNumber (live : List LedBlock) (dead number : Nat) : Option StateId :=
  if number = dead then none else live.findIdx? (·.number = number)

/-- One edge more, unless its target is left out. -/
def putEdge (live : List LedBlock) (dead : Nat) (edges : SymbolMap StateId) (entry : Char × Nat) :
    SymbolMap StateId :=
  if entry.2 = dead then edges
  else match live.findIdx? (·.number = entry.2) with
    | some id => edges.put entry.1 id
    | none => edges

theorem get?_putEdge {edges : SymbolMap StateId} {d : Char} {number : Nat} :
    (putEdge live dead edges (d, number)).get? c =
      if c = d then (newNumber live dead number).or (edges.get? c) else edges.get? c := by
  unfold putEdge newNumber
  dsimp only
  by_cases hdead : number = dead
  · simp [hdead]
  · rw [if_neg hdead, if_neg hdead]
    cases live.findIdx? (·.number = number) with
    | none => simp
    | some id => simp [SymbolMap.get?_put]

theorem get?_foldl_putEdge {edges : SymbolMap StateId} (number : Char → Nat) (l : List Char) :
    ((l.zip (l.map number)).foldl (putEdge live dead) edges).get? c =
      if c ∈ l then (newNumber live dead (number c)).or (edges.get? c) else edges.get? c := by
  induction l generalizing edges with
  | nil => rfl
  | cons d l ih =>
    rw [List.map_cons, List.zip_cons_cons, List.foldl_cons, ih, get?_putEdge]
    by_cases hc : c = d
    · subst hc
      cases newNumber live dead (number c) <;> simp
    · simp [hc]

theorem get?_blockEdges {alphabet : Alphabet} (number : Char → Nat) :
    (blockEdges alphabet (alphabet.toList.map number) live dead).get? c =
      if c ∈ alphabet then newNumber live dead (number c) else none := by
  have hfold := @get?_foldl_putEdge dead c live Ordered.empty number alphabet.toList
  rw [show SymbolMap.get? (Ordered.empty : SymbolMap StateId) c = none from rfl,
    Option.or_none] at hfold
  exact hfold

/-! ## The states -/

/-- The state that stands for a block. -/
def blockState (dfa : Dfa) (p : Partition) (live : List LedBlock) (B : LedBlock) : DfaState where
  subset := .ofList (B.members.filter (· ≠ dfa.size))
  edges := blockEdges dfa.alphabet
    (dfa.alphabet.toList.map fun c => p.number (dfa.rowNext B.least c)) live (p.number dfa.size)
  isAccept := dfa.isAccept B.least

/-- The automaton of the blocks. -/
def blockAutomaton (dfa : Dfa) (p : Partition) (live : List LedBlock) : Dfa :=
  ⟨(live.map (dfa.blockState p live)).toArray, 0, dfa.alphabet⟩

theorem getElem?_blockAutomaton (m : Nat) :
    (dfa.blockAutomaton p live).states[m]? = live[m]?.map (dfa.blockState p live) := by
  unfold blockAutomaton
  simp

theorem size_blockAutomaton : (dfa.blockAutomaton p live).size = live.length := by
  unfold blockAutomaton size
  simp

theorem IsLed.least_mem (h : IsLed p B) : B.least ∈ B.members := List.mem_of_mem_head? h.least_eq

theorem IsLed.mem_iff {same : Row → Row → Prop} (h : IsLed p B) (hp : Parts p count same) :
    r ∈ B.members ↔ r < count ∧ p.number r = B.number := by
  rw [← h.members_eq]
  constructor
  · intro hr
    exact ⟨(hp.cover r).1 ⟨_, List.getElem_mem _, hr⟩, hp.number_eq_of_mem h.number_lt hr⟩
  · rintro ⟨hr, hnumber⟩
    have hmem := Partition.mem_number (hp.number_lt hr)
    simpa only [hnumber] using hmem

theorem IsLed.least_le {same : Row → Row → Prop} (h : IsLed p B) (hp : Parts p count same)
    (hr : r ∈ B.members) : B.least ≤ r := by
  have hascending := hp.ascending _ (List.getElem_mem h.number_lt)
  rw [h.members_eq] at hascending
  obtain ⟨rest, hrest⟩ := List.head?_eq_some_iff.1 h.least_eq
  rw [hrest] at hascending hr
  rcases List.mem_cons.1 hr with rfl | hr
  · exact Nat.le_refl _
  · exact Nat.le_of_lt (List.rel_of_pairwise_cons hascending hr)

theorem minimal_eq (hdfa : dfa.WellFormed)
    (hp : (TransitionTable.ofDfa dfa).stablePartition = .ok p)
    (hparts : Parts p (dfa.size + 1) dfa.SameWords) :
    ∃ blocks live, ledBlocks p = .ok blocks ∧
      liveBlocks blocks (p.number dfa.start) (p.number dfa.size) = live ∧
      IsLiveList p (p.number dfa.start) (p.number dfa.size) live ∧
      dfa.minimal = .ok (dfa.blockAutomaton p live) := by
  have hblockOf : ∀ r ≤ dfa.size, Partition.blockOf (p.index (dfa.size + 1)) r = .ok (p.number r) :=
    fun r hr => hparts.blockOf_index (Nat.lt_succ_of_le hr)
  have hstart := Nat.le_of_lt hdfa.start_lt
  obtain ⟨blocks, hblocks, hled, hall, hdistinct⟩ := ledBlocks_returns hparts.nonempty
  have hlive : IsLiveList p (p.number dfa.start) (p.number dfa.size)
      (liveBlocks blocks (p.number dfa.start) (p.number dfa.size)) :=
    isLiveList_liveBlocks hled hall hdistinct (hparts.number_lt (Nat.lt_succ_of_le hstart))
  generalize hlist : liveBlocks blocks (p.number dfa.start) (p.number dfa.size) = live at hlive
  refine ⟨blocks, live, hblocks, hlist, hlive, ?_⟩
  have hstate : ∀ B ∈ live, dfa.ofBlock (TransitionTable.ofDfa dfa) (p.index (dfa.size + 1)) live
      (p.number dfa.size) B = .ok (dfa.blockState p live B) := by
    intro B hB
    have hmem := ((hlive.led B hB).mem_iff hparts).1 (hlive.led B hB).least_mem
    have hclosed := closed_ofDfa hdfa.edgesWithin
    have hsignature : (TransitionTable.ofDfa dfa).signature (p.index (dfa.size + 1)) B.least =
        .ok (dfa.alphabet.toList.map fun c => p.number (dfa.rowNext B.least c)) := by
      have htargets := targetsOf_ofDfa (Nat.le_of_lt_succ hmem.1)
      rw [← size_ofDfa dfa] at hparts hmem ⊢
      rw [TransitionTable.signature_eq hparts hclosed hmem.1, TransitionTable.key, htargets,
        List.map_map]
      rfl
    unfold ofBlock
    rw [hsignature, isAccept_ofDfa]
    rfl
  unfold minimal
  simp only [hp, size_ofDfa, hblockOf _ (Nat.le_refl _), hblockOf _ hstart, hblocks, hlist,
    mapM_eq_ok hstate, bind, Except.bind, pure, Except.pure, blockAutomaton]

/-! ## Quotients -/

/-- The states of `M` stand for blocks of rows that accept the same words. All such blocks are there,
but for the dead one, which is left out unless it is that of the start. -/
structure IsQuotient (dfa M : Dfa) (block : Nat → Row → Prop) : Prop where
  start_eq : M.start = 0
  alphabet_eq : M.alphabet = dfa.alphabet
  start_mem : block 0 dfa.start
  lt_size : ∀ m r, block m r → m < M.size
  le_size : ∀ m r, block m r → r ≤ dfa.size
  nonempty : ∀ m < M.size, ∃ r, block m r
  mem_iff : ∀ m r s, block m r → (block m s ↔ s ≤ dfa.size ∧ dfa.SameWords r s)
  inj : ∀ m m' r, block m r → block m' r → m = m'
  cover : ∀ r ≤ dfa.size, ¬ dfa.SameWords r dfa.size → ∃ m, block m r
  dead : ∀ m r, block m r → dfa.SameWords r dfa.size → m = 0
  isAccept_eq : ∀ m r, block m r → M.isAccept m = dfa.isAccept r
  next?_spec : ∀ m r c, block m r →
    match M.next? m c with
    | some m' => block m' (dfa.rowNext r c) ∧ ¬ dfa.SameWords (dfa.rowNext r c) dfa.size
    | none => dfa.SameWords (dfa.rowNext r c) dfa.size
  /-- Blocks are in the order of their smallest rows, the first one apart. -/
  least : ∀ i j, 0 < i → i < j → j < M.size → ∃ r, block i r ∧ ∀ s, block j s → r < s
  subset_iff : ∀ m s, M.states[m]? = some s → ∀ q, q ∈ s.subset ↔ q < dfa.size ∧ block m q

namespace IsLiveList

variable {m' : Nat} {B' : LedBlock}

theorem index_eq (h : IsLiveList p start dead live) (hm : live[m]? = some B) (hm' : live[m']? = some B')
    (hnumber : B.number = B'.number) : m = m' := by
  obtain ⟨hlt, rfl⟩ := List.getElem?_eq_some_iff.1 hm
  obtain ⟨hlt', rfl⟩ := List.getElem?_eq_some_iff.1 hm'
  rcases Nat.lt_trichotomy m m' with hmm | heq | hmm
  · exact absurd hnumber (List.pairwise_iff_getElem.1 h.distinct _ _ hlt hlt' hmm)
  · exact heq
  · exact absurd hnumber.symm (List.pairwise_iff_getElem.1 h.distinct _ _ hlt' hlt hmm)

theorem newNumber_spec (h : IsLiveList p start dead live) {number : Nat} (hlt : number < p.length) :
    match newNumber live dead number with
    | some m => number ≠ dead ∧ ∃ B, live[m]? = some B ∧ B.number = number
    | none => number = dead := by
  unfold newNumber
  by_cases hdead : number = dead
  · rw [if_pos hdead]
    exact hdead
  · rw [if_neg hdead]
    cases hfind : live.findIdx? (·.number = number) with
    | some m =>
      obtain ⟨hm, hnumber, _⟩ := List.findIdx?_eq_some_iff_getElem.1 hfind
      exact ⟨hdead, live[m], List.getElem?_eq_getElem hm, of_decide_eq_true hnumber⟩
    | none =>
      obtain ⟨B, hB, hnumber⟩ := (h.mem_iff number hlt).2 (Or.inr hdead)
      have hfalse := List.findIdx?_eq_none_iff.1 hfind B hB
      exact absurd hnumber (of_decide_eq_false hfalse)

theorem least_lt (h : IsLiveList p start dead live) {same : Row → Row → Prop}
    (hp : Parts p count same) {i j : Nat} (hi : 0 < i) (hij : i < j) (hB : live[i]? = some B)
    (hB' : live[j]? = some B') : B.least < B'.least := by
  have hne : B.number ≠ B'.number := fun heq => absurd (h.index_eq hB hB' heq) (Nat.ne_of_lt hij)
  have hled := h.led B (List.mem_of_getElem? hB)
  have hled' := h.led B' (List.mem_of_getElem? hB')
  obtain ⟨first, rest, rfl, _, hsorted⟩ := h.head
  obtain ⟨i, rfl⟩ := Nat.exists_eq_succ_of_ne_zero (Nat.ne_of_gt hi)
  obtain ⟨j, rfl⟩ := Nat.exists_eq_succ_of_ne_zero (Nat.ne_of_gt (Nat.lt_trans hi hij))
  rw [List.getElem?_cons_succ] at hB hB'
  obtain ⟨hlt, rfl⟩ := List.getElem?_eq_some_iff.1 hB
  obtain ⟨hlt', rfl⟩ := List.getElem?_eq_some_iff.1 hB'
  have hle := List.pairwise_iff_getElem.1 hsorted i j hlt hlt' (Nat.lt_of_succ_lt_succ hij)
  refine Nat.lt_of_le_of_ne hle fun heq => hne ?_
  -- a row is in one block only
  rw [← ((hled.mem_iff hp).1 hled.least_mem).2, ← ((hled'.mem_iff hp).1 hled'.least_mem).2, heq]

end IsLiveList

/-- The state of number `m` stands for the block of the row. -/
def InBlock (dfa : Dfa) (p : Partition) (live : List LedBlock) (m : Nat) (r : Row) : Prop :=
  r ≤ dfa.size ∧ ∃ B, live[m]? = some B ∧ B.number = p.number r

section InBlock

variable (hparts : Parts p (dfa.size + 1) dfa.SameWords)
  (hlive : IsLiveList p (p.number dfa.start) (p.number dfa.size) live)

include hparts

theorem number_eq_iff_sameWords (hr : r ≤ dfa.size) (hs : s ≤ dfa.size) :
    p.number r = p.number s ↔ dfa.SameWords r s :=
  hparts.number_eq_iff (Nat.lt_succ_of_le hr) (Nat.lt_succ_of_le hs)

theorem inBlock_iff (h : dfa.InBlock p live m r) :
    dfa.InBlock p live m s ↔ s ≤ dfa.size ∧ dfa.SameWords r s := by
  obtain ⟨hr, B, hB, hnumber⟩ := h
  constructor
  · rintro ⟨hs, B', hB', hnumber'⟩
    obtain rfl : B = B' := Option.some.inj (hB.symm.trans hB')
    exact ⟨hs, (number_eq_iff_sameWords hparts hr hs).1 (hnumber.symm.trans hnumber')⟩
  · rintro ⟨hs, hsame⟩
    exact ⟨hs, B, hB, hnumber.trans ((number_eq_iff_sameWords hparts hr hs).2 hsame)⟩

include hlive

theorem inBlock_least (hB : live[m]? = some B) : dfa.InBlock p live m B.least := by
  have hled := hlive.led B (List.mem_of_getElem? hB)
  obtain ⟨hlt, hnumber⟩ := (hled.mem_iff hparts).1 hled.least_mem
  exact ⟨Nat.le_of_lt_succ hlt, B, hB, hnumber.symm⟩

theorem sameWords_least (h : dfa.InBlock p live m r) (hB : live[m]? = some B) :
    dfa.SameWords r B.least :=
  ((inBlock_iff hparts h).1 (inBlock_least hparts hlive hB)).2

theorem least_le_of_inBlock (h : dfa.InBlock p live m r) (hB : live[m]? = some B) : B.least ≤ r := by
  obtain ⟨hr, B', hB', hnumber⟩ := h
  obtain rfl : B = B' := Option.some.inj (hB.symm.trans hB')
  have hled := hlive.led B (List.mem_of_getElem? hB)
  exact hled.least_le hparts ((hled.mem_iff hparts).2 ⟨Nat.lt_succ_of_le hr, hnumber.symm⟩)

theorem exists_inBlock (hr : r ≤ dfa.size) (hdead : ¬ dfa.SameWords r dfa.size) :
    ∃ m, dfa.InBlock p live m r := by
  have hne : p.number r ≠ p.number dfa.size :=
    fun heq => hdead ((number_eq_iff_sameWords hparts hr (Nat.le_refl _)).1 heq)
  obtain ⟨B, hB, hnumber⟩ :=
    (hlive.mem_iff _ (hparts.number_lt (Nat.lt_succ_of_le hr))).2 (Or.inr hne)
  obtain ⟨m, hm⟩ := List.mem_iff_getElem?.1 hB
  exact ⟨m, hr, B, hm, hnumber⟩

/-- The dead block is a state only if it is the first. -/
theorem eq_zero_of_dead (h : dfa.InBlock p live m r) (hdead : dfa.SameWords r dfa.size) : m = 0 := by
  obtain ⟨hr, B, hB, hnumber⟩ := h
  have hdead := (number_eq_iff_sameWords hparts hr (Nat.le_refl _)).2 hdead
  have hmem := List.mem_of_getElem? hB
  have hcase := (hlive.mem_iff B.number (hlive.led B hmem).number_lt).1 ⟨B, hmem, rfl⟩
  have hfirst := hcase.resolve_right fun hne => hne (hnumber.trans hdead)
  obtain ⟨B₀, rest, hhead, hnumber₀, _⟩ := hlive.head
  have hzero : live[0]? = some B₀ := by
    rw [hhead]
    rfl
  exact hlive.index_eq hB hzero (hfirst.trans hnumber₀.symm)

theorem isAccept_blockAutomaton (h : dfa.InBlock p live m r) :
    (dfa.blockAutomaton p live).isAccept m = dfa.isAccept r := by
  obtain ⟨_, B, hB, _⟩ := id h
  rw [(sameWords_least hparts hlive h hB).isAccept_eq]
  unfold isAccept
  rw [getElem?_blockAutomaton, hB]
  rfl

/-- The target of a block is the block of any target. -/
theorem next?_blockAutomaton (hdfa : dfa.WellFormed) (h : dfa.InBlock p live m r) (c : Char) :
    (dfa.blockAutomaton p live).next? m c =
      newNumber live (p.number dfa.size) (p.number (dfa.rowNext r c)) := by
  obtain ⟨_, B, hB, _⟩ := id h
  have hnumber : p.number (dfa.rowNext r c) = p.number (dfa.rowNext B.least c) :=
    (number_eq_iff_sameWords hparts (rowNext_le hdfa.edgesWithin) (rowNext_le hdfa.edgesWithin)).2
      ((sameWords_least hparts hlive h hB).rowNext c)
  rw [hnumber]
  unfold next?
  rw [getElem?_blockAutomaton, hB]
  show (dfa.blockState p live B).edges.get? c = _
  unfold blockState
  rw [get?_blockEdges]
  by_cases hc : c ∈ dfa.alphabet
  · rw [if_pos hc]
  · rw [if_neg hc, rowNext_of_not_mem hdfa.edgesWithin hc, newNumber, if_pos rfl]

theorem next?_blockAutomaton_spec (hdfa : dfa.WellFormed) (h : dfa.InBlock p live m r) (c : Char) :
    match (dfa.blockAutomaton p live).next? m c with
    | some m' => dfa.InBlock p live m' (dfa.rowNext r c) ∧ ¬ dfa.SameWords (dfa.rowNext r c) dfa.size
    | none => dfa.SameWords (dfa.rowNext r c) dfa.size := by
  have hle : dfa.rowNext r c ≤ dfa.size := rowNext_le hdfa.edgesWithin
  have hdead := number_eq_iff_sameWords hparts hle (Nat.le_refl _)
  have hspec := hlive.newNumber_spec (hparts.number_lt (Nat.lt_succ_of_le hle))
  rw [next?_blockAutomaton hparts hlive hdfa h c]
  cases hnew : newNumber live (p.number dfa.size) (p.number (dfa.rowNext r c)) with
  | some m' =>
    rw [hnew] at hspec
    exact ⟨⟨hle, hspec.2⟩, fun hsame => hspec.1 (hdead.2 hsame)⟩
  | none =>
    rw [hnew] at hspec
    exact hdead.1 hspec

theorem subset_blockAutomaton {st : DfaState} {q : Nat}
    (hst : (dfa.blockAutomaton p live).states[m]? = some st) :
    q ∈ st.subset ↔ q < dfa.size ∧ dfa.InBlock p live m q := by
  rw [getElem?_blockAutomaton] at hst
  obtain ⟨B, hB, rfl⟩ := Option.map_eq_some_iff.1 hst
  have hled := hlive.led B (List.mem_of_getElem? hB)
  show q ∈ (Ordered.ofList (B.members.filter (· ≠ dfa.size)) : StateSet) ↔ _
  rw [StateSet.mem_ofList, List.mem_filter, hled.mem_iff hparts, decide_eq_true_eq]
  constructor
  · rintro ⟨⟨hq, hnumber⟩, hne⟩
    have hlt : q < dfa.size := Nat.lt_of_le_of_ne (Nat.le_of_lt_succ hq) hne
    exact ⟨hlt, Nat.le_of_lt hlt, B, hB, hnumber.symm⟩
  · rintro ⟨hlt, _, B', hB', hnumber⟩
    obtain rfl : B = B' := Option.some.inj (hB.symm.trans hB')
    exact ⟨⟨Nat.lt_succ_of_lt hlt, hnumber.symm⟩, Nat.ne_of_lt hlt⟩

theorem isQuotient_blockAutomaton (hdfa : dfa.WellFormed) :
    IsQuotient dfa (dfa.blockAutomaton p live) (dfa.InBlock p live) := by
  have hsize : (dfa.blockAutomaton p live).size = live.length := size_blockAutomaton
  constructor
  case start_eq => rfl
  case alphabet_eq => rfl
  case start_mem =>
    obtain ⟨B, rest, rfl, hnumber, _⟩ := hlive.head
    exact ⟨Nat.le_of_lt hdfa.start_lt, B, rfl, hnumber⟩
  case lt_size =>
    rintro m r ⟨_, B, hB, _⟩
    rw [hsize]
    exact (List.getElem?_eq_some_iff.1 hB).1
  case le_size => exact fun m r h => h.1
  case nonempty =>
    intro m hm
    rw [hsize] at hm
    exact ⟨_, inBlock_least hparts hlive (List.getElem?_eq_getElem hm)⟩
  case mem_iff => exact fun m r s h => inBlock_iff hparts h
  case inj =>
    rintro m m' r ⟨_, B, hB, hnumber⟩ ⟨_, B', hB', hnumber'⟩
    exact hlive.index_eq hB hB' (hnumber.trans hnumber'.symm)
  case cover => exact fun r hr hdead => exists_inBlock hparts hlive hr hdead
  case dead => exact fun m r h hdead => eq_zero_of_dead hparts hlive h hdead
  case isAccept_eq => exact fun m r h => isAccept_blockAutomaton hparts hlive h
  case next?_spec => exact fun m r c h => next?_blockAutomaton_spec hparts hlive hdfa h c
  case least =>
    intro i j hi hij hj
    rw [hsize] at hj
    have hB : live[i]? = some live[i] := List.getElem?_eq_getElem (Nat.lt_trans hij hj)
    have hB' : live[j]? = some live[j] := List.getElem?_eq_getElem hj
    refine ⟨live[i].least, inBlock_least hparts hlive hB, fun s hs => ?_⟩
    exact Nat.lt_of_lt_of_le (hlive.least_lt hparts hi hij hB hB')
      (least_le_of_inBlock hparts hlive hs hB')
  case subset_iff => exact fun m st hst q => subset_blockAutomaton hparts hlive hst

end InBlock

/-- **Minimal automaton.** It is a quotient of the automaton that it is made from. -/
theorem minimal_returns (hdfa : dfa.WellFormed) :
    Returns dfa.minimal fun M => ∃ block, IsQuotient dfa M block := by
  obtain ⟨p, hp, hparts⟩ := stablePartition_ofDfa_returns hdfa.edgesWithin
  obtain ⟨_, live, _, _, hlive, hminimal⟩ := minimal_eq hdfa hp hparts
  exact ⟨_, hminimal, _, isQuotient_blockAutomaton hparts hlive hdfa⟩

end FiniteAutomata.Dfa
