import CodeAnalyze.Irqbalance.Sample
import Mathlib.Data.List.Induction

/-!
# The choice among objects

`find_best_object` keeps the first object of least load in `best`, and in `least_irqs` the
last object of that load that has fewer IRQs than `best`.  So the choice is one of the
least load; it is one of the fewest IRQs unless a further object comes between `best` and
the fewest in number, and behind the fewest in the list.
-/

namespace CodeAnalyze.Irqbalance

/-- An object to which `info` may go. -/
structure Eligible (cfg : Config) (s : State) (info : IrqInfo) (d : ObjRef) : Prop where
  awake : (s.obj d).powersaveMode = false
  unbanned : d.objType = .node → cpusIntersects (s.obj d).mask s.topo.unbannedCpus = true
  specified : d.objType = .node → cfg.numaAvail = true → (s.obj d).number ≠ -1
  hinted : info.hintPolicy = .subset → cpusEmpty info.affinityHint = false →
    cpusEmpty (info.affinityHint &&& (s.obj d).mask) = false

section
variable {cfg : Config} {s : State} {info : IrqInfo}

/-- The number of IRQs on an object. -/
def State.irqCountOf (s : State) (d : ObjRef) : ℕ := (s.obj d).interrupts.length

theorem skipsObject_eq_false_iff {d : ObjRef} :
    s.skipsObject cfg info d = false ↔ Eligible cfg s info d := by
  constructor
  · intro h
    simp only [State.skipsObject, Bool.or_eq_false_iff, Bool.and_eq_false_iff,
      decide_eq_false_iff_not, Bool.not_eq_false'] at h
    obtain ⟨⟨⟨hspec, hunbanned⟩, hhint⟩, hawake⟩ := h
    refine ⟨hawake, fun hnode => ?_, fun hnode hnuma hnumber => ?_, fun hsubset hsome => ?_⟩
    · exact hunbanned.resolve_left fun hnot => hnot hnode
    · rcases hspec with (hoff | hnot) | hne
      · rw [hnuma] at hoff
        cases hoff
      · exact hnot hnode
      · exact hne hnumber
    · rcases hhint with (hnot | hempty) | hinter
      · exact absurd hsubset hnot
      · rw [hsome] at hempty
        cases hempty
      · exact hinter
  · rintro ⟨hawake, hunbanned, hspecified, hhinted⟩
    simp only [State.skipsObject, Bool.or_eq_false_iff, Bool.and_eq_false_iff,
      decide_eq_false_iff_not, Bool.not_eq_false']
    refine ⟨⟨⟨?_, ?_⟩, ?_⟩, hawake⟩
    · by_cases hnode : d.objType = .node
      · cases hnuma : cfg.numaAvail with
        | false => exact .inl (.inl rfl)
        | true => exact .inr (hspecified hnode hnuma)
      · exact .inl (.inr hnode)
    · by_cases hnode : d.objType = .node
      · exact .inr (hunbanned hnode)
      · exact .inl hnode
    · by_cases hsubset : info.hintPolicy = .subset
      · cases hempty : cpusEmpty info.affinityHint with
        | true => exact .inl (.inr rfl)
        | false => exact .inr (hhinted hsubset hempty)
      · exact .inl (.inl hsubset)

instance decidableEligible (cfg : Config) (s : State) (info : IrqInfo) (d : ObjRef) :
    Decidable (Eligible cfg s info d) :=
  decidable_of_iff _ skipsObject_eq_false_iff

/-- The objects of a list that may be chosen. -/
def eligibleOf (cfg : Config) (s : State) (info : IrqInfo) (candidates : List ObjRef) :
    List ObjRef :=
  candidates.filter fun d => Eligible cfg s info d

theorem mem_eligibleOf {candidates : List ObjRef} {d : ObjRef} :
    d ∈ eligibleOf cfg s info candidates ↔ d ∈ candidates ∧ Eligible cfg s info d := by
  rw [eligibleOf, List.mem_filter, decide_eq_true_iff]

theorem findBestObject_skip {d : ObjRef} (h : ¬Eligible cfg s info d) (place : ObjPlacement) :
    s.findBestObject cfg info place d = some place := by
  have hskip : s.skipsObject cfg info d = true := by
    rw [← Bool.not_eq_false, skipsObject_eq_false_iff]
    exact h
  rw [State.findBestObject, if_pos hskip]

/-- Objects that are passed over change nothing. -/
theorem foldlM_findBestObject (candidates : List ObjRef) (place : ObjPlacement) :
    candidates.foldlM (s.findBestObject cfg info) place =
      (eligibleOf cfg s info candidates).foldlM (s.findBestObject cfg info) place := by
  induction candidates generalizing place with
  | nil => rfl
  | cons d rest ih =>
      by_cases hd : Eligible cfg s info d
      · have hkeep : eligibleOf cfg s info (d :: rest) = d :: eligibleOf cfg s info rest :=
          List.filter_cons_of_pos (by simpa using hd)
        rw [hkeep, List.foldlM_cons, List.foldlM_cons]
        exact bind_congr fun place' => ih place'
      · have hdrop : eligibleOf cfg s info (d :: rest) = eligibleOf cfg s info rest :=
          List.filter_cons_of_neg (by simpa using hd)
        rw [hdrop, List.foldlM_cons, findBestObject_skip hd]
        exact ih place

/-! ## What the scan has found -/

/-- After the objects `seen`: `first` is the first of the least load, `rest` are the others
of that load. -/
structure Scanned (s : State) (seen : List ObjRef) (place : ObjPlacement) (first : ObjRef)
    (rest : List ObjRef) : Prop where
  best : place.best = some first
  cost : place.bestCost = (s.obj first).load
  ties : (seen.filter fun d => (s.obj d).load = (s.obj first).load) = first :: rest
  le : ∀ d ∈ seen, (s.obj first).load ≤ (s.obj d).load
  least : place.leastIrqs =
    (rest.filter fun d => s.irqCountOf d < s.irqCountOf first).getLast?

theorem findBestObject_eligible {d : ObjRef} (h : Eligible cfg s info d) (place : ObjPlacement) :
    s.findBestObject cfg info place d =
      if (s.obj d).load < place.bestCost then
        some { best := some d, bestCost := (s.obj d).load, leastIrqs := none }
      else if (s.obj d).load = place.bestCost then
        match place.best with
        | none => none
        | some best =>
          if s.irqCountOf d < s.irqCountOf best then some { place with leastIrqs := some d }
          else some place
      else some place := by
  rw [State.findBestObject, if_neg (by simp [skipsObject_eq_false_iff.mpr h])]
  by_cases hlt : (s.obj d).load < place.bestCost
  · simp [hlt]
  · simp only [if_neg hlt]
    rfl

/-- The first object. -/
theorem scanned_singleton {d : ObjRef} (h : Eligible cfg s info d)
    (hload : (s.obj d).load ≠ ulongMax) :
    ∃ place, s.findBestObject cfg info {} d = some place ∧ Scanned s [d] place d [] := by
  have hlt : (s.obj d).load < ulongMax := by
    rw [UInt64.lt_iff_toNat_lt]
    have hne : (s.obj d).load.toNat ≠ ulongMax.toNat := fun heq => hload (UInt64.toNat_inj.mp heq)
    have hmax : ulongMax.toNat = 2 ^ 64 - 1 := rfl
    have := (s.obj d).load.toNat_lt
    omega
  refine ⟨{ best := some d, bestCost := (s.obj d).load, leastIrqs := none }, ?_,
    ⟨rfl, rfl, by simp, by simp, rfl⟩⟩
  rw [findBestObject_eligible h, if_pos hlt]

theorem load_trichotomy (a b : UInt64) : a < b ∨ a = b ∨ b < a := by
  rcases UInt64.le_total a b with hab | hba
  · rcases UInt64.lt_or_eq_of_le hab with hlt | heq
    · exact .inl hlt
    · exact .inr (.inl heq)
  · rcases UInt64.lt_or_eq_of_le hba with hgt | heq
    · exact .inr (.inr hgt)
    · exact .inr (.inl heq.symm)

/-- A further object. -/
theorem Scanned.step {seen : List ObjRef} {place : ObjPlacement} {first : ObjRef}
    {rest : List ObjRef} (h : Scanned s seen place first rest) {d : ObjRef}
    (hd : Eligible cfg s info d) :
    ∃ place' first' rest', s.findBestObject cfg info place d = some place' ∧
      Scanned s (seen ++ [d]) place' first' rest' := by
  obtain ⟨hbest, hcost, hties, hle, hleast⟩ := h
  rw [findBestObject_eligible hd, hcost]
  rcases load_trichotomy (s.obj d).load (s.obj first).load with hlt | heq | hgt
  · -- less load than all before
    refine ⟨{ best := some d, bestCost := (s.obj d).load, leastIrqs := none }, d, [], ?_,
      ⟨rfl, rfl, ?_, ?_, rfl⟩⟩
    · rw [if_pos hlt]
    · have hnone : (seen.filter fun e => (s.obj e).load = (s.obj d).load) = [] := by
        rw [List.filter_eq_nil_iff]
        intro e he heq
        exact absurd (hle e he) (UInt64.not_le.mpr (of_decide_eq_true heq ▸ hlt))
      rw [List.filter_append, hnone]
      simp
    · exact List.forall_mem_append.mpr
        ⟨fun e he => UInt64.le_trans (UInt64.le_of_lt hlt) (hle e he),
          List.forall_mem_singleton.mpr UInt64.le_rfl⟩
  · -- a tie with the first
    have hties' : ((seen ++ [d]).filter fun e => (s.obj e).load = (s.obj first).load) =
        first :: (rest ++ [d]) := by
      rw [List.filter_append, hties]
      simp [heq]
    have hle' : ∀ e ∈ seen ++ [d], (s.obj first).load ≤ (s.obj e).load :=
      List.forall_mem_append.mpr ⟨hle, List.forall_mem_singleton.mpr (heq ▸ UInt64.le_rfl)⟩
    rw [if_neg (by rw [heq]; exact UInt64.lt_irrefl _), if_pos heq, hbest]
    by_cases hfew : s.irqCountOf d < s.irqCountOf first
    · -- with fewer IRQs than `best`: it takes the place of `least_irqs`
      refine ⟨{ place with leastIrqs := some d }, first, rest ++ [d], ?_,
        ⟨hbest, hcost, hties', hle', ?_⟩⟩
      · simp only [if_pos hfew, hbest, hcost]
      · rw [List.filter_append, List.filter_cons_of_pos (by simpa using hfew), List.filter_nil,
          List.getLast?_concat]
    · refine ⟨place, first, rest ++ [d], ?_, ⟨hbest, hcost, hties', hle', ?_⟩⟩
      · simp only [if_neg hfew]
      · rw [List.filter_append, List.filter_cons_of_neg (by simpa using hfew), List.filter_nil,
          List.append_nil]
        exact hleast
  · -- more load
    refine ⟨place, first, rest, ?_, ⟨hbest, hcost, ?_, ?_, hleast⟩⟩
    · rw [if_neg (UInt64.not_lt.mpr (UInt64.le_of_lt hgt)), if_neg (UInt64.ne_of_lt hgt).symm]
    · rw [List.filter_append, hties,
        List.filter_cons_of_neg (by simpa using (UInt64.ne_of_lt hgt).symm), List.filter_nil,
        List.append_nil]
    · exact List.forall_mem_append.mpr
        ⟨hle, List.forall_mem_singleton.mpr (UInt64.le_of_lt hgt)⟩

/-- The whole list. -/
theorem scanned_foldlM {d : ObjRef} {more : List ObjRef}
    (h : ∀ e ∈ d :: more, Eligible cfg s info e) (hload : (s.obj d).load ≠ ulongMax) :
    ∃ place first rest,
      (d :: more).foldlM (s.findBestObject cfg info) {} = some place ∧
        Scanned s (d :: more) place first rest := by
  induction more using List.reverseRecOn with
  | nil =>
      obtain ⟨place, heq, hscan⟩ := scanned_singleton (h d List.mem_cons_self) hload
      exact ⟨place, d, [], by rw [List.foldlM_cons, heq]; rfl, hscan⟩
  | append_singleton more e ih =>
      obtain ⟨place, first, rest, heq, hscan⟩ := ih fun e he => h e (by
        rw [← List.cons_append]
        exact List.mem_append_left _ he)
      obtain ⟨place', first', rest', hstep, hscan'⟩ :=
        hscan.step (h e (by rw [← List.cons_append]; simp))
      refine ⟨place', first', rest', ?_, hscan'⟩
      rw [← List.cons_append, List.foldlM_append, heq]
      simp [hstep]

/-! ## The choice -/

/-- The objects of a list that have the least load in it. -/
def leastLoaded (s : State) (list : List ObjRef) : List ObjRef :=
  list.filter fun d => ∀ e ∈ list, (s.obj d).load ≤ (s.obj e).load

theorem Scanned.leastLoaded_eq {seen : List ObjRef} {place : ObjPlacement} {first : ObjRef}
    {rest : List ObjRef} (h : Scanned s seen place first rest) :
    leastLoaded s seen = first :: rest := by
  rw [leastLoaded, ← h.ties]
  apply List.filter_congr
  intro d hd
  have hfirst : first ∈ seen := List.mem_of_mem_filter (h.ties ▸ List.mem_cons_self)
  rw [decide_eq_decide]
  constructor
  · intro hleast
    exact UInt64.le_antisymm (hleast first hfirst) (h.le d hd)
  · intro heq e he
    rw [heq]
    exact h.le e he

/-- Behind one with the fewest IRQs there is none with more, but fewer than the first. -/
def TiesOrdered (s : State) (ties : List ObjRef) : Prop :=
  ∀ first ∈ ties.head?, ∃ before d after, ties = before ++ d :: after ∧
    (∀ e ∈ ties, s.irqCountOf d ≤ s.irqCountOf e) ∧
      ∀ e ∈ after, s.irqCountOf e = s.irqCountOf d ∨ s.irqCountOf first ≤ s.irqCountOf e

/-- Where the last element of a kind is. -/
theorem exists_last_of_filter {p : ObjRef → Bool} {list : List ObjRef} {d : ObjRef}
    (h : (list.filter p).getLast? = some d) :
    ∃ before after, list = before ++ d :: after ∧ p d = true ∧ ∀ e ∈ after, p e = false := by
  obtain ⟨init, hinit⟩ := List.getLast?_eq_some_iff.mp h
  obtain ⟨l₁, l₂, rfl, -, hlast⟩ := List.filter_eq_append_iff.mp hinit
  obtain ⟨m₁, m₂, rfl, -, hd, hnone⟩ := List.filter_eq_cons_iff.mp hlast
  refine ⟨l₁ ++ m₁, m₂, by simp, hd, fun e he => ?_⟩
  exact Bool.eq_false_iff.mpr (List.filter_eq_nil_iff.mp hnone e he)

/-- The last element of a kind is not before another of the kind. -/
theorem last_of_filter {p : ObjRef → Bool} {before after : List ObjRef} {d last : ObjRef}
    (h : ((before ++ d :: after).filter p).getLast? = some last) (hd : p d = true) :
    last = d ∨ last ∈ after ∧ p last = true := by
  rw [List.filter_append, List.filter_cons_of_pos hd, List.getLast?_append_of_ne_nil _ (by simp)]
    at h
  rcases List.mem_cons.mp (List.mem_of_getLast? h) with heq | hmem
  · exact .inl heq
  · exact .inr (List.mem_filter.mp hmem)

theorem Scanned.fewest_iff {seen : List ObjRef} {place : ObjPlacement} {first : ObjRef}
    {rest : List ObjRef} (h : Scanned s seen place first rest) {d : ObjRef}
    (hd : (place.leastIrqs <|> place.best) = some d) :
    (∀ e ∈ first :: rest, s.irqCountOf d ≤ s.irqCountOf e) ↔ TiesOrdered s (first :: rest) := by
  cases hleast : place.leastIrqs with
  | none =>
      -- none has fewer than the first
      rw [hleast, h.best] at hd
      obtain rfl : first = d := Option.some.inj hd
      have hall : ∀ e ∈ first :: rest, s.irqCountOf first ≤ s.irqCountOf e := by
        have hnone := h.least
        rw [hleast, eq_comm, List.getLast?_eq_none_iff, List.filter_eq_nil_iff] at hnone
        exact List.forall_mem_cons.mpr ⟨Nat.le_refl _, fun e he => by simpa using hnone e he⟩
      refine iff_of_true hall ?_
      rintro first' hfirst
      obtain rfl : first = first' := Option.some.inj hfirst
      exact ⟨[], first, rest, rfl, hall, fun e he => .inr (hall e (List.mem_cons_of_mem _ he))⟩
  | some least =>
      rw [hleast] at hd
      obtain rfl : least = d := Option.some.inj hd
      have hlast := h.least
      rw [hleast] at hlast
      constructor
      · intro hall first' hfirst
        obtain rfl : first = first' := Option.some.inj hfirst
        obtain ⟨before, after, hsplit, -, hafter⟩ := exists_last_of_filter hlast.symm
        refine ⟨first :: before, least, after, by rw [hsplit]; rfl, hall, fun e he => .inr ?_⟩
        simpa using hafter e he
      · intro hordered
        obtain ⟨before, d, after, hsplit, hfewest, hafter⟩ := hordered first rfl
        have hfirst : ((first :: rest).filter fun d => s.irqCountOf d < s.irqCountOf first).getLast? =
            some least := by
          rw [List.filter_cons_of_neg (by simp)]
          exact hlast.symm
        have hless : s.irqCountOf least < s.irqCountOf first := by
          obtain ⟨-, -, -, hp, -⟩ := exists_last_of_filter hlast.symm
          exact of_decide_eq_true hp
        have hmem : least ∈ first :: rest :=
          List.mem_of_mem_filter (List.mem_of_getLast? hfirst)
        have hd : s.irqCountOf d < s.irqCountOf first := Nat.lt_of_le_of_lt (hfewest _ hmem) hless
        rw [hsplit] at hfirst
        intro e he
        rcases last_of_filter hfirst (decide_eq_true hd) with rfl | ⟨hin, -⟩
        · exact hfewest e he
        · rcases hafter least hin with heq | hmany
          · rw [heq]
            exact hfewest e he
          · exact absurd hless (Nat.not_lt.mpr hmany)

/-- The choice is there if an object is eligible, and it is one of the least load and of
those one with the fewest IRQs. -/
def SelectsMinimum (cfg : Config) (s : State) (info : IrqInfo) (candidates : List ObjRef) :
    Prop :=
  ∃ choice, s.selectObject cfg info candidates = some choice ∧
    (choice = none ↔ ∀ d ∈ candidates, ¬Eligible cfg s info d) ∧
    ∀ d, choice = some d → (d ∈ candidates ∧ Eligible cfg s info d) ∧
      (∀ e ∈ candidates, Eligible cfg s info e → (s.obj d).load ≤ (s.obj e).load) ∧
      ∀ e ∈ candidates, Eligible cfg s info e → (s.obj e).load = (s.obj d).load →
        s.irqCountOf d ≤ s.irqCountOf e

/-- No object is chosen where none is eligible. -/
theorem selectObject_of_none {candidates : List ObjRef}
    (h : eligibleOf cfg s info candidates = []) :
    s.selectObject cfg info candidates = some none := by
  rw [State.selectObject, foldlM_findBestObject, h]
  rfl

/-- A NULL pointer is followed where the first eligible object has the load `ULLONG_MAX`. -/
theorem selectObject_null {candidates : List ObjRef} {d : ObjRef} {more : List ObjRef}
    (h : eligibleOf cfg s info candidates = d :: more) (hload : (s.obj d).load = ulongMax) :
    s.selectObject cfg info candidates = none := by
  have hd : Eligible cfg s info d := (mem_eligibleOf.mp (h ▸ List.mem_cons_self)).2
  rw [State.selectObject, foldlM_findBestObject, h, List.foldlM_cons, findBestObject_eligible hd,
    hload, if_neg (UInt64.lt_irrefl _), if_pos rfl]
  rfl

/-- Otherwise one is chosen. -/
theorem selectObject_scanned {candidates : List ObjRef} {d : ObjRef} {more : List ObjRef}
    (h : eligibleOf cfg s info candidates = d :: more) (hload : (s.obj d).load ≠ ulongMax) :
    ∃ place first rest, Scanned s (d :: more) place first rest ∧
      s.selectObject cfg info candidates = some (place.leastIrqs <|> place.best) := by
  have hall : ∀ e ∈ d :: more, Eligible cfg s info e := fun e he => (mem_eligibleOf.mp (h ▸ he)).2
  obtain ⟨place, first, rest, heq, hscan⟩ := scanned_foldlM hall hload
  refine ⟨place, first, rest, hscan, ?_⟩
  rw [State.selectObject, foldlM_findBestObject, h, heq]
  rfl

/-- What is chosen is one of the objects of least load. -/
theorem Scanned.chosen {seen : List ObjRef} {place : ObjPlacement} {first : ObjRef}
    {rest : List ObjRef} (h : Scanned s seen place first rest) :
    ∃ d ∈ first :: rest, (place.leastIrqs <|> place.best) = some d := by
  cases hleast : place.leastIrqs with
  | none => exact ⟨first, List.mem_cons_self, h.best⟩
  | some d =>
      refine ⟨d, List.mem_cons_of_mem _ ?_, rfl⟩
      have hlast := h.least
      rw [hleast] at hlast
      exact List.mem_of_mem_filter (List.mem_of_getLast? hlast.symm)

/-- The choice among the eligible objects, where one is made. -/
theorem Scanned.selects_iff {candidates seen : List ObjRef} {place : ObjPlacement}
    {first : ObjRef} {rest : List ObjRef} (h : Scanned s seen place first rest)
    (hseen : eligibleOf cfg s info candidates = seen)
    (hselect : s.selectObject cfg info candidates = some (place.leastIrqs <|> place.best)) :
    SelectsMinimum cfg s info candidates ↔ TiesOrdered s (leastLoaded s seen) := by
  have hmem : ∀ d, d ∈ candidates ∧ Eligible cfg s info d ↔ d ∈ seen := by
    intro d
    rw [← mem_eligibleOf, hseen]
  obtain ⟨chosen, hchosen, hplace⟩ := h.chosen
  have hties : chosen ∈ leastLoaded s seen := h.leastLoaded_eq ▸ hchosen
  have hin : chosen ∈ seen := List.mem_of_mem_filter hties
  have hleast : ∀ e ∈ seen, (s.obj chosen).load ≤ (s.obj e).load :=
    of_decide_eq_true (List.mem_filter.mp hties).2
  rw [hplace] at hselect
  rw [h.leastLoaded_eq, ← h.fewest_iff hplace, ← h.leastLoaded_eq]
  constructor
  · rintro ⟨choice, hchoice, -, hminimum⟩ e he
    rw [hselect] at hchoice
    obtain ⟨-, -, hfewest⟩ := hminimum chosen (Option.some.inj hchoice).symm
    have heseen : e ∈ seen := List.mem_of_mem_filter he
    obtain ⟨hc, helig⟩ := (hmem e).mpr heseen
    have hle : (s.obj e).load ≤ (s.obj chosen).load :=
      of_decide_eq_true (List.mem_filter.mp he).2 chosen hin
    exact hfewest e hc helig (UInt64.le_antisymm hle (hleast e heseen))
  · intro hfewest
    refine ⟨some chosen, hselect, iff_of_false (by simp) ?_, ?_⟩
    · intro hnone
      obtain ⟨hc, helig⟩ := (hmem chosen).mpr hin
      exact hnone chosen hc helig
    · rintro d hd
      obtain rfl : chosen = d := Option.some.inj hd
      refine ⟨(hmem chosen).mpr hin, fun e hc helig => ?_, fun e hc helig heq => ?_⟩
      · exact hleast e ((hmem e).mp ⟨hc, helig⟩)
      · apply hfewest
        refine List.mem_filter.mpr ⟨(hmem e).mp ⟨hc, helig⟩, decide_eq_true ?_⟩
        rw [heq]
        exact hleast

/-- The choice is the minimum but where the first eligible object has the greatest possible
load, and where the objects of least load come in a bad order. -/
theorem selectsMinimum_iff (cfg : Config) (s : State) (info : IrqInfo)
    (candidates : List ObjRef) :
    SelectsMinimum cfg s info candidates ↔
      (∀ d ∈ (eligibleOf cfg s info candidates).head?, (s.obj d).load ≠ ulongMax) ∧
        TiesOrdered s (leastLoaded s (eligibleOf cfg s info candidates)) := by
  cases heligible : eligibleOf cfg s info candidates with
  | nil =>
      have hnone : ∀ d ∈ candidates, ¬Eligible cfg s info d := by
        intro d hd helig
        have hin := mem_eligibleOf.mpr ⟨hd, helig⟩
        rw [heligible] at hin
        cases hin
      apply iff_of_true
      · exact ⟨none, selectObject_of_none heligible, iff_of_true rfl hnone, by simp⟩
      · exact ⟨by simp, by simp [TiesOrdered, leastLoaded]⟩
  | cons d more =>
      by_cases hload : (s.obj d).load = ulongMax
      · apply iff_of_false
        · rintro ⟨choice, hchoice, -⟩
          rw [selectObject_null heligible hload] at hchoice
          cases hchoice
        · rintro ⟨hhead, -⟩
          exact hhead d rfl hload
      · obtain ⟨place, first, rest, hscan, hselect⟩ := selectObject_scanned heligible hload
        have hhead : ∀ e ∈ (d :: more).head?, (s.obj e).load ≠ ulongMax :=
          fun e he => Option.some.inj he ▸ hload
        rw [hscan.selects_iff heligible hselect, and_iff_right hhead]

end

/-- CPUs with these numbers of IRQs on them. -/
def cpusWith (counts : List ℕ) (load : UInt64) : State :=
  { topo := { cpus := counts.map fun n => { load, interrupts := List.range n } } }

/-- Of three CPUs without load, that have three IRQs, one and two, the last is chosen; and a
NULL pointer is followed for a CPU with the greatest possible load. -/
theorem not_selectsMinimum :
    ¬SelectsMinimum Sample.config (cpusWith [3, 1, 2] 0) {} ((cpusWith [3, 1, 2] 0).topo.refs .cpu) ∧
      ¬SelectsMinimum Sample.config (cpusWith [0] ulongMax) {}
        ((cpusWith [0] ulongMax).topo.refs .cpu) := by
  constructor
  · rintro ⟨choice, hchoice, -, hminimum⟩
    have hlast : (cpusWith [3, 1, 2] 0).selectObject Sample.config {}
        ((cpusWith [3, 1, 2] 0).topo.refs .cpu) = some (some ⟨.cpu, 2⟩) := by
      decide +kernel
    rw [hlast] at hchoice
    obtain ⟨-, -, hfewest⟩ := hminimum ⟨.cpu, 2⟩ (Option.some.inj hchoice).symm
    exact absurd (hfewest ⟨.cpu, 1⟩ (by decide) (by decide +kernel) rfl) (by decide)
  · rintro ⟨choice, hchoice, -⟩
    have hnull : (cpusWith [0] ulongMax).selectObject Sample.config {}
        ((cpusWith [0] ulongMax).topo.refs .cpu) = none := by
      decide +kernel
    rw [hnull] at hchoice
    cases hchoice

end CodeAnalyze.Irqbalance
