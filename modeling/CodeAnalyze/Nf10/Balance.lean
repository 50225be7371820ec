import CodeAnalyze.Nf10.Unwind

/-!
# Is everything given back?

Devices are probed and removed in any order.  Nothing is held without a device as long as
no device is removed and every probe that fails does so where the error paths are complete.
-/

namespace CodeAnalyze.Nf10

open Lib (Along Holdings)

/-! ## Balance -/

/-- What the driver has is in order. -/
structure Balanced (s : DriverState) : Prop where
  /-- Without a device nothing is held. -/
  nothing : s.bound = [] → s.kernel.held = 0
  /-- Nothing was released that was not held. -/
  noStray : s.kernel.stray = false
  /-- The network devices and the interrupt handlers have their card. -/
  netdevs : ∀ c i, .registered c i ∈ s.kernel.held → .card c ∈ s.kernel.held
  handlers : ∀ dev card, .irq dev ∈ s.kernel.held → s.drvdata dev = some card →
    .card card.card ∈ s.kernel.held

/-- A device is not removed, and a probe that fails does so before the DMA buffers are
allocated or, up to `request_irq`, without a work queue.  As long as another device is bound,
what else is left behind does not show, unless it refers to the card or a network device is
unregistered that was not registered. -/
def Clean (s : DriverState) : BindEvent → Prop
  | .remove _ => False
  | .probe _ ok =>
    if ok.succeed ProbeCall.early then
      ok.succeed ProbeCall.buffers ∧
        if ok.succeed ProbeCall.books && ok .requestIrq then
          if ok.succeed ProbeCall.netdevs then
            ok.succeed ProbeCall.chrdev ∨ s.bound ≠ [] ∧ ∀ i, ok (.registerNetdev i) = false
          else s.bound ≠ [] ∧ ∀ i, ok.reaches i → ok (.registerNetdev i)
        else ok .createWorkqueue = false ∨ s.bound ≠ []
    else True

instance decidableClean (s : DriverState) : ∀ e, Decidable (Clean s e)
  | .remove _ => .isFalse id
  | .probe _ ok => by
    unfold Clean
    infer_instance

/-- What holds as long as the driver is balanced. -/
structure Sequential (s : DriverState) : Prop where
  fresh : ∀ r ∈ s.kernel.held, ∀ c ∈ r.owner, c < s.cards
  oneClass : ∀ c, s.kernel.held.count (.devClass c) ≤ 1
  known : ∀ dev ∈ s.bound, ∃ card, s.drvdata dev = some card

/-! ## Removals -/

namespace DriverState

theorem held_releaseGlobal_le (k : Holdings Resource) (global : Option ℕ) (r : ℕ → Resource) :
    (releaseGlobal k global r).held ≤ k.held := by
  cases global with
  | none => exact le_refl k.held
  | some c => exact Holdings.held_release_le k

theorem stray_releaseGlobal {k : Holdings Resource} (h : k.stray = true) (global : Option ℕ)
    (r : ℕ → Resource) : (releaseGlobal k global r).stray = true := by
  cases global with
  | none => rfl
  | some c => exact Holdings.stray_release k h

variable {s : DriverState}

/-- The class is unregistered twice. -/
theorem stray_nf10fopsRemove (card : CardPtrs) {k : Holdings Resource}
    (hclass : ∀ c, k.held.count (.devClass c) ≤ 1) : (s.nf10fopsRemove card k).stray = true := by
  have hstep : (s.classDestroy
      (releaseGlobal (releaseGlobal k s.devno .classDevice) s.devClass .devClass)).stray = true := by
    unfold classDestroy
    cases s.devClass with
    | none => rfl
    | some c =>
        apply Holdings.stray_release_twice
        exact (Multiset.count_le_of_le _ (held_releaseGlobal_le k s.devno .classDevice)).trans
          (hclass c)
  exact stray_releaseGlobal (Holdings.stray_release _ hstep) _ _

theorem stray_kfreeBooks {card : CardPtrs} {k : Holdings Resource} (h : k.stray = true) :
    (kfreeBooks card k).stray = true := by
  simp only [kfreeBooks, List.foldl_cons, List.foldl_nil]
  iterate 7 apply Holdings.stray_releaseIf
  exact h

theorem stray_nf10Remove {dev : ℕ} {card : CardPtrs} (hdrvdata : s.drvdata dev = some card)
    (hclass : ∀ c, s.kernel.held.count (.devClass c) ≤ 1) :
    (s.nf10Remove dev).kernel.stray = true := by
  simp only [nf10Remove, hdrvdata, pciSetDrvdata]
  iterate 5 apply Holdings.stray_release
  apply stray_kfreeBooks
  iterate 2 apply Holdings.stray_release
  iterate 3 apply Holdings.stray_releaseIf
  apply Holdings.stray_release
  exact stray_foldl_removeNdev (stray_nf10fopsRemove card hclass) _

end DriverState

/-! ## Probes -/

section Probes

variable {s : DriverState} {dev : ℕ}

/-- A probe that fails leaves the driver balanced if what it leaves behind does not show. -/
theorem Leaves.balanced_iff {rs : List Resource} {out : ℤ × DriverState} (h : Leaves s dev rs out)
    (hs : Sequential s) (hb : Balanced s) :
    Balanced out.2 ↔ (rs = [] ∨ s.bound ≠ []) ∧ ∀ c i, .registered c i ∉ rs := by
  have hmem : ∀ r, r ∈ out.2.kernel.held ↔ r ∈ rs ∨ r ∈ s.kernel.held := by
    intro r
    rw [h.kernel, Holdings.mem_acquireAll]
  constructor
  · intro hout
    constructor
    · -- with no card bound nothing may be held
      by_contra hshow
      push Not at hshow
      obtain ⟨r, hr⟩ := List.exists_mem_of_ne_nil rs hshow.1
      have hheld : r ∈ out.2.kernel.held := (hmem r).mpr (.inl hr)
      rw [hout.nothing (h.bound.trans hshow.2)] at hheld
      exact Multiset.notMem_zero r hheld
    · -- a registered device of a card that has been freed
      intro c i hr
      have hc : c = s.cards := (h.owner _ hr c rfl).1
      rcases (hmem _).mp (hout.netdevs c i ((hmem _).mpr (.inl hr))) with hcard | hcard
      · exact nomatch h.survives _ hcard
      · exact absurd (hs.fresh _ hcard c rfl) (by rw [hc]; exact lt_irrefl _)
  · rintro ⟨hshow, hnot⟩
    constructor
    · intro hnone
      have hbound : s.bound = [] := h.bound.symm.trans hnone
      have hrs : rs = [] := hshow.resolve_right fun hne => hne hbound
      rw [h.kernel, hrs]
      exact hb.nothing hbound
    · rw [h.kernel, Holdings.stray_acquireAll]
      exact hb.noStray
    · intro c i hr
      have hold : .registered c i ∈ s.kernel.held := ((hmem _).mp hr).resolve_left (hnot c i)
      exact (hmem _).mpr (.inr (hb.netdevs c i hold))
    · intro d card hirq hdrvdata
      apply (hmem _).mpr
      right
      rcases h.drvdata with ⟨hsame, hrs⟩ | ⟨hupdate, hdev⟩
      · have hold : .irq d ∈ s.kernel.held := by
          simpa [hrs] using (hmem _).mp hirq
        exact hb.handlers d card hold (by rw [← hsame]; exact hdrvdata)
      · have hne : d ≠ dev := by
          rintro rfl
          rw [hupdate, Function.update_self] at hdrvdata
          cases hdrvdata
        have hold : .irq d ∈ s.kernel.held :=
          ((hmem _).mp hirq).resolve_left fun hr => hne (hdev d hr)
        rw [hupdate, Function.update_of_ne hne] at hdrvdata
        exact hb.handlers d card hold hdrvdata

theorem Leaves.sequential {rs : List Resource} {out : ℤ × DriverState} (h : Leaves s dev rs out)
    (hs : Sequential s) (hdev : dev ∉ s.bound) : Sequential out.2 := by
  constructor
  · intro r hr c hc
    rw [h.kernel, Holdings.mem_acquireAll] at hr
    rcases hr with hnew | hold
    · obtain ⟨hc', hlt⟩ := h.owner r hnew c hc
      exact hc' ▸ hlt
    · exact lt_of_lt_of_le (hs.fresh r hold c hc) h.cards
  · intro c
    rw [h.kernel, Holdings.count_acquireAll, List.count_eq_zero.mpr (h.noClass c), zero_add]
    exact hs.oneClass c
  · intro d hd
    rw [h.bound] at hd
    obtain ⟨card, hcard⟩ := hs.known d hd
    refine ⟨card, ?_⟩
    rcases h.drvdata with ⟨hsame, -⟩ | ⟨hupdate, -⟩
    · rw [hsame, hcard]
    · have hne : d ≠ dev := fun heq => hdev (heq ▸ hd)
      rw [hupdate, Function.update_of_ne hne, hcard]

theorem Binds.balanced {new : List Resource} {out : ℤ × DriverState} (h : Binds s dev new out)
    (hb : Balanced s) : Balanced { out.2 with bound := dev :: out.2.bound } := by
  have hmem : ∀ r, r ∈ out.2.kernel.held ↔ r ∈ new ∨ r ∈ s.kernel.held := by
    intro r
    rw [h.kernel, Holdings.mem_acquireAll]
  obtain ⟨card, hcard, hdrvdata⟩ := h.drvdata
  constructor
  · intro hnone
    cases hnone
  · change out.2.kernel.stray = false
    rw [h.kernel, Holdings.stray_acquireAll]
    exact hb.noStray
  · intro c i hr
    apply (hmem _).mpr
    rcases (hmem _).mp hr with hnew | hold
    · rw [h.owner _ hnew c rfl]
      exact .inl h.hasCard
    · exact .inr (hb.netdevs c i hold)
  · intro d card' hirq hdata
    apply (hmem _).mpr
    change out.2.drvdata d = some card' at hdata
    rw [hdrvdata] at hdata
    by_cases hd : d = dev
    · rw [hd, Function.update_self] at hdata
      obtain rfl := Option.some.inj hdata
      rw [hcard]
      exact .inl h.hasCard
    · rw [Function.update_of_ne hd] at hdata
      have hold : .irq d ∈ s.kernel.held :=
        ((hmem _).mp hirq).resolve_left fun hnew => hd (h.irq d hnew)
      exact .inr (hb.handlers d card' hold hdata)

theorem Binds.sequential {new : List Resource} {out : ℤ × DriverState} (h : Binds s dev new out)
    (hs : Sequential s) : Sequential { out.2 with bound := dev :: out.2.bound } := by
  obtain ⟨card, hcard, hdrvdata⟩ := h.drvdata
  constructor
  · intro r hr c hc
    change r ∈ out.2.kernel.held at hr
    change c < out.2.cards
    rw [h.kernel, Holdings.mem_acquireAll] at hr
    rw [h.cards]
    rcases hr with hnew | hold
    · rw [h.owner r hnew c hc]
      exact Nat.lt_succ_self _
    · exact Nat.lt_succ_of_lt (hs.fresh r hold c hc)
  · intro c
    change out.2.kernel.held.count (.devClass c) ≤ 1
    rw [h.kernel, Holdings.count_acquireAll]
    by_cases hnew : .devClass c ∈ new
    · have hfresh : s.kernel.held.count (.devClass c) = 0 := by
        rw [Multiset.count_eq_zero]
        intro hold
        have hlt := hs.fresh _ hold c rfl
        rw [h.owner _ hnew c rfl] at hlt
        exact lt_irrefl _ hlt
      rw [hfresh]
      exact h.oneClass c
    · rw [List.count_eq_zero.mpr hnew, zero_add]
      exact hs.oneClass c
  · intro d hd
    change ∃ card, out.2.drvdata d = some card
    rw [hdrvdata]
    by_cases hdev : d = dev
    · exact ⟨card, by rw [hdev, Function.update_self]⟩
    · rw [Function.update_of_ne hdev]
      have hold : d ∈ s.bound := by
        rw [← h.bound]
        exact (List.mem_cons.mp hd).resolve_left hdev
      exact hs.known d hold

end Probes

/-! ## Events -/

/-- The driver after a probe that gave this. -/
def afterProbe (dev : ℕ) (out : ℤ × DriverState) : DriverState :=
  { out.2 with bound := if out.1 < 0 then out.2.bound else dev :: out.2.bound }

theorem bindExec_probe {s s' : DriverState} {dev : ℕ} {ok : Outcome}
    (hx : bindExec s (.probe dev ok) = some s') :
    dev ∉ s.bound ∧ s' = afterProbe dev (s.nf10Probe dev ok) := by
  simp only [bindExec] at hx
  split at hx
  · cases hx
  · rename_i hdev
    exact ⟨hdev, (Option.some.inj hx).symm⟩

theorem not_balanced_of_stray (dev : ℕ) {out : ℤ × DriverState}
    (h : out.2.kernel.stray = true) : ¬Balanced (afterProbe dev out) :=
  fun hb => absurd (hb.noStray.symm.trans h) Bool.false_ne_true

section Steps

variable {s : DriverState} {dev : ℕ} {out : ℤ × DriverState}

theorem Leaves.afterProbe {rs : List Resource} (h : Leaves s dev rs out) (hs : Sequential s)
    (hb : Balanced s) (hdev : dev ∉ s.bound) :
    (Balanced (afterProbe dev out) ↔
        (rs = [] ∨ s.bound ≠ []) ∧ ∀ c i, .registered c i ∉ rs) ∧
      (Balanced (afterProbe dev out) → Sequential (CodeAnalyze.Nf10.afterProbe dev out)) := by
  have hout : CodeAnalyze.Nf10.afterProbe dev out = out.2 := by
    simp [CodeAnalyze.Nf10.afterProbe, h.fails]
  rw [hout]
  exact ⟨h.balanced_iff hs hb, fun _ => h.sequential hs hdev⟩

theorem Binds.afterProbe {new : List Resource} (h : Binds s dev new out) (hs : Sequential s)
    (hb : Balanced s) :
    Balanced (afterProbe dev out) ∧ Sequential (CodeAnalyze.Nf10.afterProbe dev out) := by
  have hout : CodeAnalyze.Nf10.afterProbe dev out =
      { out.2 with bound := dev :: out.2.bound } := by
    simp [CodeAnalyze.Nf10.afterProbe, h.succeeds]
  rw [hout]
  exact ⟨h.balanced hb, h.sequential hs⟩

end Steps

/-- A probe keeps the balance exactly when it is clean. -/
theorem Sequential.probe {s s' : DriverState} {dev : ℕ} {ok : Outcome} (hs : Sequential s)
    (hb : Balanced s) (hx : bindExec s (.probe dev ok) = some s') :
    (Balanced s' ↔ Clean s (.probe dev ok)) ∧ (Balanced s' → Sequential s') := by
  obtain ⟨hdev, rfl⟩ := bindExec_probe hx
  have hfresh : ∀ r : Resource, r.owner = some s.cards → r ∉ s.kernel.held :=
    fun r hr hmem => absurd (hs.fresh r hmem s.cards hr) (lt_irrefl _)
  simp only [Clean]
  -- by the group of calls in which the probe fails first, in the order of the source
  cases hearly : ok.succeed ProbeCall.early with
  | false =>
      have hleaves := (s.nf10Probe_early dev ok hearly).afterProbe hs hb hdev
      simpa using hleaves
  | true =>
  cases hbuffers : ok.succeed ProbeCall.buffers with
  | false =>
      -- the error path frees a buffer that was not allocated
      have hstray := s.stray_of_buffers dev hearly hbuffers
        fun b => hfresh _ rfl
      have hnot := not_balanced_of_stray dev hstray
      simp [hnot]
  | true =>
  cases hbooks : ok.succeed ProbeCall.books && ok .requestIrq with
  | false =>
      have hleaves :=
        (s.nf10Probe_unbooked dev hearly hbuffers hbooks).afterProbe
          hs hb hdev
      refine ⟨hleaves.1.trans ?_, hleaves.2⟩
      cases ok .createWorkqueue <;> simp
  | true =>
  cases hnetdevs : ok.succeed ProbeCall.netdevs with
  | false =>
      by_cases hall : ∀ i, ok.reaches i = true → ok (.registerNetdev i) = true
      · have hleaves :=
          (s.nf10Probe_undevised dev hearly hbuffers hbooks hnetdevs
            hall).afterProbe hs hb hdev
        refine ⟨hleaves.1.trans ?_, hleaves.2⟩
        cases ok .createWorkqueue <;> simpa using fun _ => hall
      · obtain ⟨i, hi⟩ := not_forall.mp hall
        obtain ⟨hreach, hnot⟩ := Classical.not_imp.mp hi
        have hstray := s.stray_of_netdevs dev hearly hbuffers hbooks hnetdevs
          hreach (Bool.eq_false_iff.mpr hnot) (hfresh _ rfl)
        have hunbalanced := not_balanced_of_stray dev hstray
        simp [hunbalanced, hall]
  | true =>
  cases hchrdev : ok.succeed ProbeCall.chrdev with
  | false =>
      -- the handler of the interrupt stays in any case
      obtain ⟨rs, hirq, hregistered, hleaves⟩ :=
        s.nf10Probe_unlisted dev hearly hbuffers hbooks hnetdevs
          hchrdev
      have hne : rs ≠ [] := List.ne_nil_of_mem hirq
      have hafter := hleaves.afterProbe hs hb hdev
      have hnone : (∀ c i, .registered c i ∉ rs) ↔ ∀ i, ok (.registerNetdev i) = false := by
        simp only [hregistered, not_and, Bool.not_eq_true]
        exact ⟨fun h i => h s.cards i rfl, fun h _ i _ => h i⟩
      refine ⟨hafter.1.trans ?_, hafter.2⟩
      simp [hne, hnone]
  | true =>
      obtain ⟨new, hbinds⟩ :=
        s.nf10Probe_binds dev hearly hbuffers hbooks hnetdevs hchrdev
      have hafter := hbinds.afterProbe hs hb
      exact ⟨⟨fun _ => by simp, fun _ => hafter.1⟩, fun _ => hafter.2⟩

/-- A removal never keeps it. -/
theorem Sequential.remove {s s' : DriverState} {dev : ℕ} (hs : Sequential s)
    (hx : bindExec s (.remove dev) = some s') : ¬Balanced s' := by
  simp only [bindExec] at hx
  split at hx
  · rename_i hdev
    obtain rfl := Option.some.inj hx
    obtain ⟨card, hcard⟩ := hs.known dev hdev
    intro hb
    have hstray := DriverState.stray_nf10Remove hcard hs.oneClass
    exact absurd (hb.noStray.symm.trans hstray) Bool.false_ne_true
  · cases hx

/-! ## Runs -/

theorem balanced_start : Balanced {} where
  nothing := fun _ => rfl
  noStray := rfl
  netdevs := fun _ _ h => absurd h (Multiset.notMem_zero _)
  handlers := fun _ _ h => absurd h (Multiset.notMem_zero _)

theorem sequential_start : Sequential {} where
  fresh := fun _ h => absurd h (Multiset.notMem_zero _)
  oneClass := fun _ => by simp
  known := fun _ h => absurd h List.not_mem_nil

/-- A sequence of probes and removals stays balanced throughout exactly when all of them are
clean. -/
theorem balanced_iff_clean {events : List BindEvent} {s : DriverState}
    (hrun : events.foldlM bindExec {} = some s) :
    Along bindExec (fun s e => ∀ s', bindExec s e = some s' → Balanced s') {} events ↔
      Along bindExec Clean {} events := by
  refine Lib.along_congr (I := fun s => Sequential s ∧ Balanced s) (Q := fun _ => True) ?_ ?_
    ⟨sequential_start, balanced_start⟩ (fun _ _ => trivial) hrun
  · rintro s e s' ⟨hs, hb⟩ - hx
    have hall : (∀ t, bindExec s e = some t → Balanced t) ↔ Balanced s' := by
      rw [hx]
      simp
    rw [hall]
    cases e with
    | probe dev ok => exact (hs.probe hb hx).1
    | remove dev => exact ⟨fun h => absurd h (hs.remove hx), fun h => h.elim⟩
  · rintro s e s' ⟨hs, hb⟩ - hgood hx
    have hb' : Balanced s' := hgood s' hx
    refine ⟨?_, hb'⟩
    cases e with
    | probe dev ok => exact (hs.probe hb hx).2 hb'
    | remove dev => exact absurd hb' (hs.remove hx)

/-- A probe that fails early, one that fails at the books when another device is bound, and
two that succeed. -/
def probesOnly : List BindEvent :=
  [.probe 0 fun call => call ≠ .pciEnableMsi, .probe 0 fun _ => true,
    .probe 1 fun call => call ≠ .kmallocBook .rxBkSize, .probe 1 fun _ => true]

theorem balanced_iff_clean_probesOnly :
    Along bindExec (fun s e => ∀ s', bindExec s e = some s' → Balanced s') {} probesOnly :=
  (balanced_iff_clean (Option.some_get (by decide +kernel)).symm).mpr (by decide +kernel)

/-- Without any failure, what is bound and unbound again is not balanced; nor is a probe that
fails at a network device. -/
theorem unbound_not_balanced :
    ¬Balanced (([.probe 0 fun _ => true, .remove 0].foldlM bindExec {}).get (by decide +kernel)) ∧
    ¬Balanced (([.probe 0 fun call => call ≠ .allocNetdev 2].foldlM bindExec {}).get
      (by decide +kernel)) := by
  refine ⟨fun h => ?_, fun h => ?_⟩
  · have hstray := h.noStray
    revert hstray
    decide +kernel
  · have hheld := congrArg Multiset.card (h.nothing (by decide +kernel))
    revert hheld
    decide +kernel

end CodeAnalyze.Nf10
