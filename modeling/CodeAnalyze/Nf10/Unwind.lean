import CodeAnalyze.Nf10.Probe

/-!
# What a probe leaves behind

The error paths of `nf10_probe` undo what `nf10_probe` itself has taken, except for the work
queue; nothing undoes `nf10iface_probe`.
-/

namespace CodeAnalyze.Nf10

open Lib (Holdings)

/-! ## Outcomes -/

namespace ProbeCall

/-- The calls before the DMA buffers are allocated. -/
def early : List ProbeCall :=
  [pciEnableDevice, dmaSetMask, dmaSetCoherentMask, pciEnableMsi, requestMemRegion 0,
    requestMemRegion 2, kmallocCard, ioremapNocache .cfgAddr, ioremapNocache .txDsc,
    ioremapNocache .rxDsc]

def buffers : List ProbeCall := [pciAllocConsistent .txDne, pciAllocConsistent .rxDne]

def books : List ProbeCall :=
  [kmallocBook .txBkSkb, kmallocBook .txBkDmaAddr, kmallocBook .txBkSize, kmallocBook .txBkPort,
    kmallocBook .rxBkSkb, kmallocBook .rxBkDmaAddr, kmallocBook .rxBkSize]

def netdevs : List ProbeCall := [allocNetdev 0, allocNetdev 1, allocNetdev 2, allocNetdev 3]

def chrdev : List ProbeCall := [allocChrdevRegion, cdevAdd]

end ProbeCall

/-- All these calls succeed. -/
def Outcome.succeed (ok : Outcome) (calls : List ProbeCall) : Bool := calls.all ok

/-- The network device is allocated before another one cannot be. -/
def Outcome.reaches (ok : Outcome) (i : Port) : Bool :=
  ok.succeed (ProbeCall.netdevs.take (i.val + 1))

/-! ## The error paths -/

/-- The error paths of `nf10_probe` do not release this. -/
def Resource.survives : Resource → Bool
  | device _ => false
  | msi _ => false
  | memRegion _ _ => false
  | card _ => false
  | mapping _ _ => false
  | consistent _ _ => false
  | book _ _ => false
  | _ => true

section ErrorPaths

variable (dev : ℕ) (card : CardPtrs) (k : Holdings Resource)

/-- What the error paths do not release is left behind. -/
theorem errOutFreePrivate2_acquireAll {rs : List Resource} (hrs : ∀ r ∈ rs, r.survives = true) :
    errOutFreePrivate2 dev card (k.acquireAll rs) =
      (errOutFreePrivate2 dev card k).acquireAll rs := by
  have hnot : ∀ r, r.survives = false → r ∉ rs := by
    intro r hr hmem
    exact absurd (hr.symm.trans (hrs r hmem)) Bool.false_ne_true
  simp (disch := exact hnot _ rfl) only [errOutFreePrivate2_eq, kfreeBooks, pciFreeConsistent,
    errOutIounmap_eq, iounmap, errOutReleaseMemRegion2, errOutReleaseMemRegion1, errOutMsi,
    errOutDisableDevice, List.foldl_cons, List.foldl_nil, Holdings.release_acquireAll,
    Holdings.releaseIf_acquireAll]

/-- What `nf10_probe` has taken when it gets to the DMA buffers. -/
def taken (c : ℕ) : Holdings Resource :=
  ((((((((k.acquire (.device dev)).acquire (.msi dev)).acquire (.memRegion dev 0)).acquire
    (.memRegion dev 2)).acquire (.card c)).acquire (.mapping c .cfgAddr)).acquire
      (.mapping c .txDsc)).acquire (.mapping c .rxDsc))

/-- What it has taken when it gets to the books, and to the network devices if all of them
can be allocated. -/
def takenBooks (ok : Outcome) (c : ℕ) : Holdings Resource :=
  DriverState.kmallocBooks ok c
    ((((taken dev k c).acquire (.consistent c .txDne)).acquire (.consistent c .rxDne)).acquireIf
      (ok .createWorkqueue) (.workqueue c))

/-- The last error path gives back all but the work queue. -/
theorem errOutFreePrivate2_takenBooks (ok : Outcome) {card : CardPtrs}
    (hmapping : card.mapping = fun _ => true) (hbook : card.book = fun b => ok (.kmallocBook b)) :
    errOutFreePrivate2 dev card (takenBooks dev k ok card.card) =
      k.acquireIf (ok .createWorkqueue) (.workqueue card.card) := by
  have hiounmap : ∀ m k, iounmap card k m = k.release (.mapping card.card m) := by
    intro m k
    simp [iounmap, hmapping, Holdings.releaseIf]
  simp [errOutFreePrivate2_eq, kfreeBooks, pciFreeConsistent, errOutIounmap_eq, hiounmap,
    errOutReleaseMemRegion2, errOutReleaseMemRegion1, errOutMsi, errOutDisableDevice, takenBooks,
    taken, DriverState.kmallocBooks, hbook, Holdings.releaseIf_acquireIf_of_ne,
    Holdings.release_acquire_of_ne, Holdings.release_acquireIf_of_ne]

/-- The error path before gives back everything. -/
theorem errOutIounmap_taken (cfg tx rx : Bool) (card : CardPtrs)
    (hmapping : card.mapping = fun m => match m with
      | .cfgAddr => cfg
      | .txDsc => tx
      | .rxDsc => rx) :
    errOutIounmap dev card
      ((((((((k.acquire (.device dev)).acquire (.msi dev)).acquire (.memRegion dev 0)).acquire
        (.memRegion dev 2)).acquire (.card card.card)).acquireIf cfg
          (.mapping card.card .cfgAddr)).acquireIf tx (.mapping card.card .txDsc)).acquireIf rx
            (.mapping card.card .rxDsc)) = k := by
  simp [errOutIounmap_eq, iounmap, hmapping, errOutReleaseMemRegion2, errOutReleaseMemRegion1,
    errOutMsi, errOutDisableDevice, Holdings.releaseIf_acquireIf_of_ne]

variable {dev card k}

theorem stray_errOutIounmap (h : k.stray = true) : (errOutIounmap dev card k).stray = true := by
  simp only [errOutIounmap_eq, iounmap, errOutReleaseMemRegion2, errOutReleaseMemRegion1,
    errOutMsi, errOutDisableDevice]
  iterate 5 apply Holdings.stray_release
  iterate 3 apply Holdings.stray_releaseIf
  exact h

theorem stray_errOutFreePrivate2 (h : k.stray = true) :
    (errOutFreePrivate2 dev card k).stray = true := by
  simp only [errOutFreePrivate2_eq, pciFreeConsistent, kfreeBooks, List.foldl_cons,
    List.foldl_nil]
  apply stray_errOutIounmap
  iterate 2 apply Holdings.stray_release
  iterate 7 apply Holdings.stray_releaseIf
  exact h

/-- Both DMA buffers are released, whether they were allocated or not. -/
theorem stray_of_no_buffer (b : HostBuffer) (h : .consistent card.card b ∉ k.held) :
    (errOutFreePrivate2 dev card k).stray = true := by
  have hbooks : .consistent card.card b ∉ (kfreeBooks card k).held := by
    simp only [kfreeBooks, List.foldl_cons, List.foldl_nil]
    iterate 7 apply Holdings.not_mem_releaseIf
    exact h
  simp only [errOutFreePrivate2_eq, pciFreeConsistent]
  apply stray_errOutIounmap
  cases b with
  | txDne => exact Holdings.stray_release _ (Holdings.stray_of_not_mem _ hbooks)
  | rxDne => exact Holdings.stray_of_not_mem _ (Holdings.not_mem_release _ hbooks)

end ErrorPaths

/-! ## Network devices -/

section Ndevs

variable {ok : Outcome}

/-- What a network device takes. -/
def ndevResources (ok : Outcome) (c : ℕ) (i : Port) : List Resource :=
  .netdev c i :: if ok (.registerNetdev i) then [.registered c i] else []

/-- The loop stops at the first device that cannot be allocated. -/
theorem setUpNdevs_eq (ports : List Port) (card : CardPtrs) (k : Holdings Resource) :
    setUpNdevs ok ports card k =
      (ports.all fun i => ok (.allocNetdev i),
        { card with
          ndev := fun i =>
            card.ndev i || (ports.takeWhile fun i => ok (.allocNetdev i)).contains i },
        k.acquireAll
          ((ports.takeWhile fun i => ok (.allocNetdev i)).flatMap (ndevResources ok card.card))) := by
  induction ports generalizing card k with
  | nil => simp [setUpNdevs, Holdings.acquireAll]
  | cons i rest ih =>
      cases halloc : ok (.allocNetdev i) with
      | false => simp [setUpNdevs, halloc, Holdings.acquireAll]
      | true =>
          have hstep : (k.acquire (.netdev card.card i)).acquireIf (ok (.registerNetdev i))
              (.registered card.card i) = k.acquireAll (ndevResources ok card.card i) := by
            rw [Holdings.acquireIf_eq_acquireAll]
            rfl
          simp only [setUpNdevs, halloc, if_true, ih, hstep, List.all_cons, Bool.true_and,
            List.takeWhile_cons, List.flatMap_cons, Holdings.acquireAll_append, Prod.mk.injEq,
            CardPtrs.mk.injEq, true_and, and_true]
          funext j
          by_cases hj : j = i
          · simp [hj]
          · simp [hj]

/-- The devices that were set up, where all of them are registered. -/
theorem removeNdevs_setUp (card : CardPtrs) (k : Holdings Resource) (ports : List Port)
    (hports : ports = ([0, 1, 2, 3] : List Port).takeWhile fun i => ok (.allocNetdev i))
    (hndev : ∀ i, card.ndev i = true ↔ i ∈ ports)
    (hregistered : ∀ i ∈ ports, ok (.registerNetdev i) = true) :
    removeNdevs card (k.acquireAll (ports.flatMap (ndevResources ok card.card))) = k := by
  have hprefix : ports <+: ([0, 1, 2, 3] : List Port) := hports ▸ List.takeWhile_prefix _
  have hres : ∀ i ∈ ports, ndevResources ok card.card i =
      [.netdev card.card i, .registered card.card i] := by
    intro i hi
    rw [ndevResources, hregistered i hi]
    rfl
  rw [List.flatMap_congr hres]
  obtain ⟨n, hn, rfl⟩ : ∃ n ≤ 4, ports = ([0, 1, 2, 3] : List Port).take n :=
    ⟨ports.length, hprefix.length_le, List.prefix_iff_eq_take.mp hprefix⟩
  clear hports hprefix hregistered hres
  simp only [removeNdevs, removeNdev, hndev, List.foldl_cons, List.foldl_nil,
    Holdings.acquireAll]
  obtain rfl | rfl | rfl | rfl | rfl : n = 0 ∨ n = 1 ∨ n = 2 ∨ n = 3 ∨ n = 4 := by omega
  all_goals simp [Holdings.release_acquire_of_ne]

theorem stray_foldl_removeNdev {card : CardPtrs} {k : Holdings Resource} (h : k.stray = true)
    (ports : List Port) : (ports.foldl (removeNdev card) k).stray = true := by
  induction ports generalizing k with
  | nil => exact h
  | cons j rest ih =>
      apply ih
      unfold removeNdev
      split
      · exact Holdings.stray_release _ (Holdings.stray_release _ h)
      · exact h

/-- A device that is removed was not registered. -/
theorem stray_removeNdev {card : CardPtrs} {k : Holdings Resource} {i : Port}
    (hndev : card.ndev i = true) (hnot : .registered card.card i ∉ k.held) {ports : List Port}
    (hi : i ∈ ports) : (ports.foldl (removeNdev card) k).stray = true := by
  induction ports generalizing k with
  | nil => exact absurd hi List.not_mem_nil
  | cons j rest ih =>
      rw [List.foldl_cons]
      by_cases hj : j = i
      · apply stray_foldl_removeNdev
        rw [hj, removeNdev, if_pos hndev]
        exact Holdings.stray_release _ (Holdings.stray_of_not_mem _ hnot)
      · refine ih ?_ ((List.mem_cons.mp hi).resolve_left (Ne.symm hj))
        unfold removeNdev
        split
        · exact Holdings.not_mem_release _ (Holdings.not_mem_release _ hnot)
        · exact hnot

theorem registered_mem_flatMap {c : ℕ} {i : Port} {ports : List Port} :
    .registered c i ∈ ports.flatMap (ndevResources ok c) ↔
      i ∈ ports ∧ ok (.registerNetdev i) = true := by
  simp only [List.mem_flatMap, ndevResources, List.mem_cons, reduceCtorEq, false_or]
  constructor
  · rintro ⟨j, hj, hmem⟩
    split at hmem
    · rename_i hok
      obtain ⟨-, rfl⟩ := Resource.registered.inj (List.mem_singleton.mp hmem)
      exact ⟨hj, hok⟩
    · exact absurd hmem List.not_mem_nil
  · rintro ⟨hi, hok⟩
    exact ⟨i, hi, by simp [hok]⟩

theorem registered_mem_takenBooks {dev c : ℕ} {k : Holdings Resource} {i : Port} :
    .registered c i ∈ (takenBooks dev k ok c).held ↔ .registered c i ∈ k.held := by
  simp [takenBooks, taken, DriverState.kmallocBooks]

theorem mem_ports (i : Port) : i ∈ ([0, 1, 2, 3] : List Port) := by
  revert i
  decide

end Ndevs

/-! ## Probes -/

/-- A probe of the device fails and leaves this behind. -/
structure Leaves (s : DriverState) (dev : ℕ) (rs : List Resource) (out : ℤ × DriverState) :
    Prop where
  fails : out.1 < 0
  survives : ∀ r ∈ rs, r.survives = true
  noClass : ∀ c, .devClass c ∉ rs
  kernel : out.2.kernel = s.kernel.acquireAll rs
  cards : s.cards ≤ out.2.cards
  owner : ∀ r ∈ rs, ∀ c ∈ r.owner, c = s.cards ∧ c < out.2.cards
  bound : out.2.bound = s.bound
  drvdata : out.2.drvdata = s.drvdata ∧ rs = [] ∨
    out.2.drvdata = Function.update s.drvdata dev none ∧ ∀ d, .irq d ∈ rs → d = dev

namespace DriverState

variable (s : DriverState) (dev : ℕ) (ok : Outcome)

@[simp] theorem failIounmap_kernel (card : CardPtrs) :
    (s.failIounmap dev card).kernel = errOutIounmap dev card s.kernel := rfl

@[simp] theorem failFreePrivate2_kernel (card : CardPtrs) :
    (s.failFreePrivate2 dev card).kernel = errOutFreePrivate2 dev card s.kernel := rfl

/-- A probe that fails and has given back everything. -/
theorem leaves_nothing {ret : ℤ} {s' : DriverState} (hret : ret < 0)
    (hkernel : s'.kernel = s.kernel) (hcards : s.cards ≤ s'.cards) (hbound : s'.bound = s.bound)
    (hdrvdata : s'.drvdata = s.drvdata ∨ s'.drvdata = Function.update s.drvdata dev none) :
    Leaves s dev [] (ret, s') where
  fails := hret
  survives := fun _ hr => absurd hr List.not_mem_nil
  noClass := fun _ => List.not_mem_nil
  kernel := hkernel
  cards := hcards
  owner := fun _ hr => absurd hr List.not_mem_nil
  bound := hbound
  drvdata := hdrvdata.imp (fun h => ⟨h, rfl⟩)
    fun h => ⟨h, fun _ hr => absurd hr List.not_mem_nil⟩

theorem leaves_modifyKernel {ret : ℤ} (hret : ret < 0) {f : Holdings Resource → Holdings Resource}
    (s' : DriverState) (hs' : s'.cards = s.cards ∧ s'.bound = s.bound ∧ s'.drvdata = s.drvdata)
    (hkernel : f s'.kernel = s.kernel) : Leaves s dev [] (ret, s'.modifyKernel f) :=
  s.leaves_nothing dev hret hkernel (le_of_eq hs'.1.symm) hs'.2.1 (.inl hs'.2.2)

/-- A mapping fails. -/
theorem leaves_failIounmap (kernel : Holdings Resource) (cards : ℕ) (hcards : s.cards ≤ cards)
    (card : CardPtrs) (hkernel : errOutIounmap dev card kernel = s.kernel) :
    Leaves s dev []
      (-ENODEV, { s with kernel := kernel, cards := cards }.failIounmap dev card) := by
  refine s.leaves_nothing dev (by decide) ?_ hcards rfl (.inr rfl)
  rw [failIounmap_kernel, hkernel]

/-- Up to the DMA buffers a probe that fails leaves nothing behind. -/
theorem nf10Probe_early (h : ok.succeed ProbeCall.early = false) :
    Leaves s dev [] (s.nf10Probe dev ok) := by
  unfold nf10Probe
  split
  case isFalse => exact s.leaves_nothing dev (by decide) rfl (le_refl _) rfl (.inl rfl)
  case isTrue henable =>
    split
    case isFalse =>
      refine s.leaves_modifyKernel dev (by decide) _ ⟨rfl, rfl, rfl⟩ ?_
      simp [modifyKernel, errOutDisableDevice]
    case isTrue hmsi =>
      split
      case isFalse =>
        refine s.leaves_modifyKernel dev (by decide) _ ⟨rfl, rfl, rfl⟩ ?_
        simp [modifyKernel, errOutMsi, errOutDisableDevice]
      case isTrue hregion0 =>
        split
        case isFalse =>
          refine s.leaves_modifyKernel dev (by decide) _ ⟨rfl, rfl, rfl⟩ ?_
          simp [modifyKernel, errOutReleaseMemRegion1, errOutMsi, errOutDisableDevice]
        case isTrue hregion2 =>
          split
          case isFalse =>
            refine s.leaves_modifyKernel dev (by decide) _ ⟨rfl, rfl, rfl⟩ ?_
            simp [modifyKernel, errOutReleaseMemRegion2, errOutReleaseMemRegion1, errOutMsi,
              errOutDisableDevice]
          case isTrue hcard =>
            unfold probeMappings
            split
            case isFalse =>
              apply s.leaves_failIounmap dev _ _ (Nat.le_succ _)
              exact errOutIounmap_taken dev s.kernel false false false { card := s.cards }
                (by funext m; cases m <;> rfl)
            case isTrue hcfg =>
              -- one of the two descriptor mappings is the call that fails
              have hunmapped : ¬(ok (.ioremapNocache .txDsc) && ok (.ioremapNocache .rxDsc)) =
                  true := by
                intro hboth
                simp_all [Outcome.succeed, ProbeCall.early]
              rw [if_neg hunmapped]
              apply s.leaves_failIounmap dev _ _ (Nat.le_succ _)
              exact errOutIounmap_taken dev s.kernel true (ok (.ioremapNocache .txDsc))
                (ok (.ioremapNocache .rxDsc))
                { card := s.cards, mapping := fun m => ok (.ioremapNocache m) }
                (by funext m; cases m <;> simp [hcfg])

/-- A probe that gets to the DMA buffers. -/
theorem nf10Probe_late (h : ok.succeed ProbeCall.early = true) :
    s.nf10Probe dev ok =
      { s with kernel := taken dev s.kernel s.cards, cards := s.cards + 1 }.probeBuffers dev ok
        { card := s.cards, mapping := fun m => ok (.ioremapNocache m) } := by
  simp only [Outcome.succeed, ProbeCall.early, List.all_cons, List.all_nil, Bool.and_true,
    Bool.and_eq_true] at h
  obtain ⟨henable, hmask, hcoherent, hmsi, hregion0, hregion2, hcard, hcfg, htx, hrx⟩ := h
  simp [nf10Probe, probeMappings, modifyKernel, taken, henable, hmask, hcoherent, hmsi, hregion0,
    hregion2, hcard, hcfg, htx, hrx, Holdings.acquireIf]

/-- The pointers of a card whose books are allocated. -/
def fullCard (c : ℕ) : CardPtrs where
  card := c
  mapping := fun m => ok (.ioremapNocache m)
  hostDnePtr := fun b => ok (.pciAllocConsistent b)
  book := fun b => ok (.kmallocBook b)

/-- The driver when a probe has come to the books. -/
def withBooks : DriverState :=
  { s with kernel := takenBooks dev s.kernel ok s.cards, cards := s.cards + 1 }

variable {ok}

/-- A probe that gets to the books. -/
theorem nf10Probe_books (hearly : ok.succeed ProbeCall.early = true)
    (hbuffers : ok.succeed ProbeCall.buffers = true) :
    s.nf10Probe dev ok =
      if ok.succeed ProbeCall.books then (s.withBooks dev ok).probeDevices dev ok (fullCard ok s.cards)
      else (-ENODEV, (s.withBooks dev ok).failFreePrivate2 dev (fullCard ok s.cards)) := by
  rw [s.nf10Probe_late dev ok hearly]
  simp only [Outcome.succeed, ProbeCall.buffers, List.all_cons, List.all_nil, Bool.and_true,
    Bool.and_eq_true] at hbuffers
  obtain ⟨htx, hrx⟩ := hbuffers
  simp [probeBuffers, probeBooks, modifyKernel, withBooks, fullCard, takenBooks, htx, hrx,
    Holdings.acquireIf, Outcome.succeed, ProbeCall.books, and_assoc]

/-- The error path of a probe that has come to the books. -/
theorem leaves_failFreePrivate2 (hearly : ok.succeed ProbeCall.early = true) {ret : ℤ}
    (hret : ret < 0) (s' : DriverState) {card : CardPtrs} (rs : List Resource)
    (hcard : card.card = s.cards ∧ card.mapping = (fullCard ok s.cards).mapping ∧
      card.book = (fullCard ok s.cards).book)
    (hkernel : s'.kernel = (takenBooks dev s.kernel ok s.cards).acquireAll rs)
    (hcards : s'.cards = s.cards + 1) (hbound : s'.bound = s.bound)
    (hdrvdata : s'.drvdata = s.drvdata) (hsurvive : ∀ r ∈ rs, r.survives = true)
    (hclass : ∀ c, .devClass c ∉ rs) (howner : ∀ r ∈ rs, ∀ c ∈ r.owner, c = s.cards)
    (hirq : ∀ d, .irq d ∈ rs → d = dev) :
    Leaves s dev ((if ok .createWorkqueue then [.workqueue s.cards] else []) ++ rs)
      (ret, s'.failFreePrivate2 dev card) := by
  obtain ⟨hc, hmapping, hbook⟩ := hcard
  have htrue : card.mapping = fun _ => true := by
    rw [hmapping]
    funext m
    simp only [Outcome.succeed, ProbeCall.early, List.all_cons, List.all_nil, Bool.and_true,
      Bool.and_eq_true] at hearly
    cases m with
    | cfgAddr => exact hearly.2.2.2.2.2.2.2.1
    | txDsc => exact hearly.2.2.2.2.2.2.2.2.1
    | rxDsc => exact hearly.2.2.2.2.2.2.2.2.2
  -- the work queue is on no error path
  have hleft : ∀ r ∈ (if ok .createWorkqueue then [.workqueue s.cards] else []) ++ rs,
      r = .workqueue s.cards ∨ r ∈ rs := by
    intro r hmem
    rcases List.mem_append.mp hmem with hwq | hrs
    · exact .inl (List.mem_singleton.mp (List.mem_ite_nil_right.mp hwq).2)
    · exact .inr hrs
  constructor
  · exact hret
  · intro r hmem
    rcases hleft r hmem with rfl | hrs
    · rfl
    · exact hsurvive r hrs
  · intro c hmem
    rcases hleft _ hmem with hwq | hrs
    · cases hwq
    · exact hclass c hrs
  · rw [failFreePrivate2_kernel, hkernel, errOutFreePrivate2_acquireAll dev card _ hsurvive, ← hc,
      errOutFreePrivate2_takenBooks dev s.kernel ok htrue hbook, Holdings.acquireAll_append,
      Holdings.acquireIf_eq_acquireAll]
  · exact le_of_le_of_eq (Nat.le_succ _) hcards.symm
  · intro r hmem c hc
    have hown : c = s.cards := by
      rcases hleft r hmem with rfl | hrs
      · exact (Option.some.inj hc).symm
      · exact howner r hrs c hc
    exact ⟨hown, by rw [hown]; exact lt_of_lt_of_eq (Nat.lt_succ_self _) hcards.symm⟩
  · exact hbound
  · refine .inr ⟨by rw [← hdrvdata]; rfl, fun d hmem => ?_⟩
    rcases hleft _ hmem with hwq | hrs
    · cases hwq
    · exact hirq d hrs

/-- The DMA buffers are released although one of them was not allocated. -/
theorem stray_of_buffers (hearly : ok.succeed ProbeCall.early = true)
    (hbuffers : ok.succeed ProbeCall.buffers = false)
    (hfresh : ∀ b, .consistent s.cards b ∉ s.kernel.held) :
    (s.nf10Probe dev ok).2.kernel.stray = true := by
  rw [s.nf10Probe_late dev ok hearly]
  have hfail : ¬(ok (.pciAllocConsistent .rxDne) && ok (.pciAllocConsistent .txDne)) = true := by
    intro hboth
    simp_all [Outcome.succeed, ProbeCall.buffers]
  obtain ⟨b, hb⟩ : ∃ b, ok (.pciAllocConsistent b) = false := by
    by_contra hall
    push Not at hall
    exact hfail (by simp [hall])
  simp only [probeBuffers, hfail]
  apply stray_of_no_buffer b
  have hnot := hfresh b
  cases b <;> simp [modifyKernel, taken, hb, hnot]

/-- From the books up to `request_irq` a probe that fails leaves the work queue behind. -/
theorem nf10Probe_unbooked (hearly : ok.succeed ProbeCall.early = true)
    (hbuffers : ok.succeed ProbeCall.buffers = true)
    (hbooks : (ok.succeed ProbeCall.books && ok .requestIrq) = false) :
    Leaves s dev ((if ok .createWorkqueue then [.workqueue s.cards] else []) ++ [])
      (s.nf10Probe dev ok) := by
  rw [s.nf10Probe_books dev hearly hbuffers]
  have hleaves : Leaves s dev ((if ok .createWorkqueue then [.workqueue s.cards] else []) ++ [])
      (-ENODEV, (s.withBooks dev ok).failFreePrivate2 dev (fullCard ok s.cards)) := by
    refine s.leaves_failFreePrivate2 dev hearly ?_ (s.withBooks dev ok) [] ⟨rfl, rfl, rfl⟩ rfl rfl rfl
      rfl ?_ ?_ ?_ ?_
    · decide
    · exact fun _ hr => absurd hr List.not_mem_nil
    · exact fun _ => List.not_mem_nil
    · exact fun _ hr => absurd hr List.not_mem_nil
    · exact fun _ hr => absurd hr List.not_mem_nil
  cases hall : ok.succeed ProbeCall.books with
  | true =>
      have hirq : ok .requestIrq = false := by
        rw [hall, Bool.true_and] at hbooks
        exact hbooks
      have hdevices : (s.withBooks dev ok).probeDevices dev ok (fullCard ok s.cards) =
          (-ENODEV, (s.withBooks dev ok).failFreePrivate2 dev (fullCard ok s.cards)) := by
        simp [probeDevices, nf10ifaceProbe, hirq, ENODEV]
      rw [if_pos rfl, hdevices]
      exact hleaves
  | false =>
      rw [if_neg Bool.false_ne_true]
      exact hleaves

/-- The network devices that are allocated. -/
def reached (ok : Outcome) : List Port :=
  ([0, 1, 2, 3] : List Port).takeWhile fun i => ok (.allocNetdev i)

theorem mem_reached (i : Port) : i ∈ reached ok ↔ ok.reaches i = true := by
  have hi : i = 0 ∨ i = 1 ∨ i = 2 ∨ i = 3 := by
    revert i
    decide
  simp only [reached, Outcome.reaches, Outcome.succeed, ProbeCall.netdevs]
  cases h0 : ok (.allocNetdev 0) <;> cases h1 : ok (.allocNetdev 1) <;>
    cases h2 : ok (.allocNetdev 2) <;> cases h3 : ok (.allocNetdev 3) <;>
      obtain rfl | rfl | rfl | rfl := hi <;> simp [h0, h1, h2, h3]

/-- The card with the network devices that are allocated. -/
def withNdevs (ok : Outcome) (c : ℕ) : CardPtrs :=
  { fullCard ok c with ndev := fun i => i ∈ reached ok }

theorem setUpNdevs_fullCard (c : ℕ) (k : Holdings Resource) :
    setUpNdevs ok [0, 1, 2, 3] (fullCard ok c) k =
      (ok.succeed ProbeCall.netdevs, withNdevs ok c,
        k.acquireAll ((reached ok).flatMap (ndevResources ok c))) := by
  rw [setUpNdevs_eq]
  simp only [Outcome.succeed, ProbeCall.netdevs, withNdevs, fullCard, reached, Bool.false_or,
    List.contains_eq_mem]
  rfl

/-- A probe for which a network device cannot be allocated. -/
theorem nf10Probe_netdevs (hearly : ok.succeed ProbeCall.early = true)
    (hbuffers : ok.succeed ProbeCall.buffers = true)
    (hbooks : (ok.succeed ProbeCall.books && ok .requestIrq) = true)
    (hnetdevs : ok.succeed ProbeCall.netdevs = false) :
    s.nf10Probe dev ok =
      (-ENOMEM,
        { s.withBooks dev ok with
          kernel := removeNdevs (withNdevs ok s.cards)
            (((s.withBooks dev ok).kernel.acquire (.irq dev)).acquireAll
              ((reached ok).flatMap (ndevResources ok s.cards))) }.failFreePrivate2 dev
          (withNdevs ok s.cards)) := by
  obtain ⟨hall, hirq⟩ := Bool.and_eq_true_iff.mp hbooks
  rw [s.nf10Probe_books dev hearly hbuffers, if_pos hall]
  simp [probeDevices, nf10ifaceProbe, hirq, setUpNdevs_fullCard, hnetdevs, ENOMEM]

/-- If the network devices that were allocated are registered, the work queue and the
interrupt handler are left behind. -/
theorem nf10Probe_undevised (hearly : ok.succeed ProbeCall.early = true)
    (hbuffers : ok.succeed ProbeCall.buffers = true)
    (hbooks : (ok.succeed ProbeCall.books && ok .requestIrq) = true)
    (hnetdevs : ok.succeed ProbeCall.netdevs = false)
    (hregistered : ∀ i, ok.reaches i = true → ok (.registerNetdev i) = true) :
    Leaves s dev ((if ok .createWorkqueue then [.workqueue s.cards] else []) ++ [.irq dev])
      (s.nf10Probe dev ok) := by
  rw [s.nf10Probe_netdevs dev hearly hbuffers hbooks hnetdevs]
  refine s.leaves_failFreePrivate2 dev hearly ?_ _ [.irq dev] ⟨rfl, rfl, rfl⟩ ?_ rfl rfl rfl ?_ ?_
    ?_ ?_
  · decide
  · exact removeNdevs_setUp (withNdevs ok s.cards) _ (reached ok) rfl
      (fun _ => decide_eq_true_iff) fun i hi => hregistered i ((mem_reached i).mp hi)
  · intro r hr
    obtain rfl := List.mem_singleton.mp hr
    rfl
  · simp
  · intro r hr
    obtain rfl := List.mem_singleton.mp hr
    exact fun _ h => nomatch h
  · exact fun d hd => Resource.irq.inj (List.mem_singleton.mp hd)

/-- A network device that was not registered is unregistered. -/
theorem stray_of_netdevs (hearly : ok.succeed ProbeCall.early = true)
    (hbuffers : ok.succeed ProbeCall.buffers = true)
    (hbooks : (ok.succeed ProbeCall.books && ok .requestIrq) = true)
    (hnetdevs : ok.succeed ProbeCall.netdevs = false) {i : Port} (hi : ok.reaches i = true)
    (hnot : ok (.registerNetdev i) = false) (hfresh : .registered s.cards i ∉ s.kernel.held) :
    (s.nf10Probe dev ok).2.kernel.stray = true := by
  rw [s.nf10Probe_netdevs dev hearly hbuffers hbooks hnetdevs, failFreePrivate2_kernel]
  apply stray_errOutFreePrivate2
  refine stray_removeNdev (i := i) ?_ ?_ (mem_ports i)
  · exact decide_eq_true ((mem_reached i).mpr hi)
  · intro hmem
    rcases (Holdings.mem_acquireAll _).mp hmem with hdevs | hbefore
    · have hok : ok (.registerNetdev i) = true := (registered_mem_flatMap.mp hdevs).2
      exact absurd (hnot.symm.trans hok) Bool.false_ne_true
    · rcases (Holdings.mem_acquire _).mp hbefore with hirq | hbooks
      · cases hirq
      · exact hfresh (registered_mem_takenBooks.mp hbooks)

/-! ### The network devices are set up -/

/-- What posting skbs takes. -/
theorem postRxSkbs_eq (ok : Outcome) (c : ℕ) (calls : List ℕ) (rings : Card) (k : Holdings Resource) :
    ∃ rs : List Resource, (∀ r ∈ rs, r.isRx = true ∧ r.owner = some c) ∧
      (postRxSkbs ok c calls rings k).2 = k.acquireAll rs := by
  induction calls generalizing rings k with
  | nil => exact ⟨[], fun _ hr => absurd hr List.not_mem_nil, rfl⟩
  | cons n rest ih =>
      unfold postRxSkbs
      rw [List.foldl_cons]
      split
      · obtain ⟨rs, hrs, heq⟩ := ih ((rings.nf10privSendRxDsc (some n) 0).2)
          ((k.acquire (.skb c n)).acquireIf (ok (.pciMapSingle n)) (.dma c n))
        refine ⟨.skb c n :: (if ok (.pciMapSingle n) then [.dma c n] else []) ++ rs, ?_, ?_⟩
        · intro r hr
          rcases List.mem_append.mp hr with hnew | hrest
          · rcases List.mem_cons.mp hnew with rfl | hdma
            · exact ⟨rfl, rfl⟩
            · split at hdma
              · obtain rfl := List.mem_singleton.mp hdma
                exact ⟨rfl, rfl⟩
              · exact absurd hdma List.not_mem_nil
          · exact hrs r hrest
        · rw [Holdings.acquireAll_append]
          refine heq.trans ?_
          rw [Holdings.acquireIf_eq_acquireAll]
          rfl
      · exact ih rings k

/-- What `nf10iface_probe` takes when it succeeds. -/
def ifaceResources (dev : ℕ) (ok : Outcome) (c : ℕ) (rx : List Resource) : List Resource :=
  .irq dev :: ([0, 1, 2, 3] : List Port).flatMap (ndevResources ok c) ++ rx

/-- The driver when `nf10iface_probe` has succeeded. -/
def withDevices (s : DriverState) (dev : ℕ) (ok : Outcome) (rx : List Resource) : DriverState :=
  { s with
    kernel := (takenBooks dev s.kernel ok s.cards).acquireAll (ifaceResources dev ok s.cards rx)
    cards := s.cards + 1 }

/-- A probe that gets to `nf10fops_probe`. -/
theorem nf10Probe_fops (hearly : ok.succeed ProbeCall.early = true)
    (hbuffers : ok.succeed ProbeCall.buffers = true)
    (hbooks : (ok.succeed ProbeCall.books && ok .requestIrq) = true)
    (hnetdevs : ok.succeed ProbeCall.netdevs = true) :
    ∃ rx : List Resource, (∀ r ∈ rx, r.isRx = true ∧ r.owner = some s.cards) ∧
      s.nf10Probe dev ok =
        let out := (s.withDevices dev ok rx).nf10fopsProbe ok (withNdevs ok s.cards)
        if out.1 < 0 then (out.1, out.2.failFreePrivate2 dev (withNdevs ok s.cards))
        else (out.1, out.2.pciSetDrvdata dev (some (withNdevs ok s.cards))) := by
  obtain ⟨hall, hirq⟩ := Bool.and_eq_true_iff.mp hbooks
  have hreached : reached ok = [0, 1, 2, 3] := by
    simp only [Outcome.succeed, ProbeCall.netdevs, List.all_cons, List.all_nil, Bool.and_true,
      Bool.and_eq_true] at hnetdevs
    simp [reached, hnetdevs]
  obtain ⟨rx, hrx, heq⟩ := postRxSkbs_eq ok s.cards
    (List.range ((nf10ProbeRings Card.zeroed).rx.dsc.clSize - 2).toNat)
    (nf10ProbeRings Card.zeroed)
    ((((s.withBooks dev ok).kernel.acquire (.irq dev)).acquireAll
      (([0, 1, 2, 3] : List Port).flatMap (ndevResources ok s.cards))))
  refine ⟨rx, hrx, ?_⟩
  have hkernel : ((((s.withBooks dev ok).kernel.acquire (.irq dev)).acquireAll
      (([0, 1, 2, 3] : List Port).flatMap (ndevResources ok s.cards)))).acquireAll rx =
        (s.withDevices dev ok rx).kernel := by
    rw [← Holdings.acquireAll_append]
    rfl
  rw [s.nf10Probe_books dev hearly hbuffers, if_pos hall]
  have hiface : nf10ifaceProbe dev ok (fullCard ok s.cards) (s.withBooks dev ok).kernel =
      (0, withNdevs ok s.cards, (s.withDevices dev ok rx).kernel) := by
    simp only [nf10ifaceProbe, hirq, if_true, setUpNdevs_fullCard, hnetdevs, hreached]
    rw [← hkernel]
    exact congrArg (fun k => ((0 : ℤ), withNdevs ok s.cards, k)) heq
  simp only [probeDevices, hiface]
  rfl

/-- The character device cannot be added. -/
theorem nf10fopsProbe_fails (h : ok.succeed ProbeCall.chrdev = false) (card : CardPtrs) :
    (s.nf10fopsProbe ok card).1 = -ENOMEM ∧
      (s.nf10fopsProbe ok card).2.kernel = s.kernel.acquireAll
        (if ok .allocChrdevRegion then [.chrdevRegion card.card] else []) ∧
      (s.nf10fopsProbe ok card).2.cards = s.cards ∧
      (s.nf10fopsProbe ok card).2.bound = s.bound ∧
      (s.nf10fopsProbe ok card).2.drvdata = s.drvdata := by
  cases halloc : ok .allocChrdevRegion with
  | false => simp [nf10fopsProbe, halloc, Holdings.acquireAll]
  | true =>
      have hadd : ok .cdevAdd = false := by
        simpa [Outcome.succeed, ProbeCall.chrdev, halloc] using h
      simp [nf10fopsProbe, halloc, hadd, Holdings.acquireAll]

/-- What `nf10fops_probe` takes when it succeeds. -/
def fopsResources (ok : Outcome) (c : ℕ) : List Resource :=
  [.chrdevRegion c, .cdev c] ++ (if ok .classCreate then [.devClass c] else []) ++
    if ok .deviceCreate then [.classDevice c] else []

theorem owner_of_mem_fopsResources {c : ℕ} {r : Resource} (hr : r ∈ fopsResources ok c) :
    r.owner = some c := by
  simp only [fopsResources, List.mem_append, List.mem_cons, List.not_mem_nil, or_false] at hr
  rcases hr with ((rfl | rfl) | hclass) | hdevice
  · rfl
  · rfl
  · split at hclass
    · obtain rfl := List.mem_singleton.mp hclass
      rfl
    · exact absurd hclass List.not_mem_nil
  · split at hdevice
    · obtain rfl := List.mem_singleton.mp hdevice
      rfl
    · exact absurd hdevice List.not_mem_nil

/-- The character device is added. -/
theorem nf10fopsProbe_succeeds (h : ok.succeed ProbeCall.chrdev = true) (card : CardPtrs) :
    (s.nf10fopsProbe ok card).1 = 0 ∧
      (s.nf10fopsProbe ok card).2.kernel = s.kernel.acquireAll (fopsResources ok card.card) ∧
      (s.nf10fopsProbe ok card).2.cards = s.cards ∧
      (s.nf10fopsProbe ok card).2.bound = s.bound ∧
      (s.nf10fopsProbe ok card).2.drvdata = s.drvdata := by
  simp only [Outcome.succeed, ProbeCall.chrdev, List.all_cons, List.all_nil, Bool.and_true,
    Bool.and_eq_true] at h
  obtain ⟨halloc, hadd⟩ := h
  simp [nf10fopsProbe, fopsResources, halloc, hadd, modifyKernel, Holdings.acquireIf_eq_acquireAll,
    Holdings.acquireAll]

theorem of_mem_ndevResources {c : ℕ} {r : Resource}
    (hr : r ∈ ([0, 1, 2, 3] : List Port).flatMap (ndevResources ok c)) :
    ∃ i, r = .netdev c i ∨ r = .registered c i := by
  obtain ⟨i, -, hmem⟩ := List.mem_flatMap.mp hr
  refine ⟨i, ?_⟩
  rcases List.mem_cons.mp hmem with rfl | hregistered
  · exact .inl rfl
  · split at hregistered
    · exact .inr (List.mem_singleton.mp hregistered)
    · exact absurd hregistered List.not_mem_nil

/-- What `nf10iface_probe` takes belongs to the device and the card. -/
theorem of_mem_ifaceResources {dev c : ℕ} {rx : List Resource}
    (hrx : ∀ r ∈ rx, r.isRx = true ∧ r.owner = some c) {r : Resource}
    (hr : r ∈ ifaceResources dev ok c rx) :
    r.survives = true ∧ (∀ c' ∈ r.owner, c' = c) ∧ (∀ d, r = .irq d → d = dev) ∧
      ∀ c', r ≠ .devClass c' := by
  rcases List.mem_cons.mp hr with rfl | hrest
  · simp [Resource.survives, Resource.owner, eq_comm]
  · rcases List.mem_append.mp hrest with hndev | hpost
    · obtain ⟨i, rfl | rfl⟩ := of_mem_ndevResources hndev
      · simp [Resource.survives, Resource.owner]
      · simp [Resource.survives, Resource.owner]
    · obtain ⟨hisRx, howner⟩ := hrx r hpost
      rw [howner]
      cases r with
      | skb c' n => simp [Resource.survives]
      | dma c' n => simp [Resource.survives]
      | _ => cases hisRx

/-- Nothing undoes `nf10iface_probe` when `nf10fops_probe` fails. -/
theorem nf10Probe_unlisted (hearly : ok.succeed ProbeCall.early = true)
    (hbuffers : ok.succeed ProbeCall.buffers = true)
    (hbooks : (ok.succeed ProbeCall.books && ok .requestIrq) = true)
    (hnetdevs : ok.succeed ProbeCall.netdevs = true)
    (hchrdev : ok.succeed ProbeCall.chrdev = false) :
    ∃ rs : List Resource, .irq dev ∈ rs ∧
      (∀ c i, .registered c i ∈ rs ↔ c = s.cards ∧ ok (.registerNetdev i) = true) ∧
      Leaves s dev rs (s.nf10Probe dev ok) := by
  obtain ⟨rx, hrx, hprobe⟩ := s.nf10Probe_fops dev hearly hbuffers hbooks hnetdevs
  obtain ⟨hret, hkernel, hcards, hbound, hdrvdata⟩ :=
    (s.withDevices dev ok rx).nf10fopsProbe_fails hchrdev (withNdevs ok s.cards)
  have hlast : ∀ r ∈ (if ok .allocChrdevRegion then [.chrdevRegion s.cards] else [] :
      List Resource), r = .chrdevRegion s.cards := by
    intro r hr
    exact List.mem_singleton.mp (List.mem_ite_nil_right.mp hr).2
  -- what the two later probes have taken is the card's own, and no error path releases it
  have hall : ∀ r ∈ ifaceResources dev ok s.cards rx ++
      (if ok .allocChrdevRegion then [.chrdevRegion s.cards] else []),
      r.survives = true ∧ (∀ c' ∈ r.owner, c' = s.cards) ∧ (∀ d, r = .irq d → d = dev) ∧
        ∀ c', r ≠ .devClass c' := by
    intro r hr
    rcases List.mem_append.mp hr with hiface | hchr
    · exact of_mem_ifaceResources hrx hiface
    · rw [hlast r hchr]
      simp [Resource.survives, Resource.owner]
  have hneg : -ENOMEM < 0 := by decide
  have hleaves := s.leaves_failFreePrivate2 dev hearly hneg
    ((s.withDevices dev ok rx).nf10fopsProbe ok (withNdevs ok s.cards)).2
    (ifaceResources dev ok s.cards rx ++
      (if ok .allocChrdevRegion then [Resource.chrdevRegion s.cards] else []))
    (⟨rfl, rfl, rfl⟩ : (withNdevs ok s.cards).card = s.cards ∧ _ ∧ _)
    (hkernel.trans (Holdings.acquireAll_append _ _ _).symm) hcards hbound hdrvdata
    (fun r hr => (hall r hr).1) (fun c hc => (hall _ hc).2.2.2 c rfl)
    (fun r hr => (hall r hr).2.1) fun d hd => (hall _ hd).2.2.1 d rfl
  have hout : s.nf10Probe dev ok = (-ENOMEM,
      ((s.withDevices dev ok rx).nf10fopsProbe ok (withNdevs ok s.cards)).2.failFreePrivate2 dev
        (withNdevs ok s.cards)) := by
    rw [hprobe]
    simp only [hret, hneg, if_true]
  rw [hout]
  refine ⟨_, ?_, ?_, hleaves⟩
  · exact List.mem_append_right _ (List.mem_append_left _ List.mem_cons_self)
  · intro c i
    constructor
    · intro hmem
      rcases List.mem_append.mp hmem with hwq | hrest
      · split at hwq <;> simp at hwq
      · have hc : c = s.cards := (hall _ hrest).2.1 c rfl
        refine ⟨hc, ?_⟩
        subst hc
        rcases List.mem_append.mp hrest with hiface | hchr
        · rcases List.mem_cons.mp hiface with hirq | hdevs
          · cases hirq
          · rcases List.mem_append.mp hdevs with hndev | hpost
            · exact (registered_mem_flatMap.mp hndev).2
            · exact nomatch (hrx _ hpost).1
        · exact nomatch hlast _ hchr
    · rintro ⟨rfl, hok⟩
      refine List.mem_append_right _ (List.mem_append_left _ (List.mem_cons_of_mem _ ?_))
      exact List.mem_append_left _ (registered_mem_flatMap.mpr ⟨mem_ports i, hok⟩)

end DriverState

/-- A probe binds the device, and takes all this. -/
structure Binds (s : DriverState) (dev : ℕ) (new : List Resource) (out : ℤ × DriverState) :
    Prop where
  succeeds : out.1 = 0
  kernel : out.2.kernel = s.kernel.acquireAll new
  cards : out.2.cards = s.cards + 1
  bound : out.2.bound = s.bound
  drvdata : ∃ card, card.card = s.cards ∧
    out.2.drvdata = Function.update s.drvdata dev (some card)
  hasCard : .card s.cards ∈ new
  owner : ∀ r ∈ new, ∀ c ∈ r.owner, c = s.cards
  irq : ∀ d, .irq d ∈ new → d = dev
  oneClass : ∀ c, new.count (.devClass c) ≤ 1

namespace DriverState

variable (s : DriverState) (dev : ℕ) {ok : Outcome}

/-- What a probe takes before it sets up the network devices. -/
def bookResources (dev : ℕ) (ok : Outcome) (c : ℕ) : List Resource :=
  [.device dev, .msi dev, .memRegion dev 0, .memRegion dev 2, .card c, .mapping c .cfgAddr,
    .mapping c .txDsc, .mapping c .rxDsc, .consistent c .txDne, .consistent c .rxDne] ++
    (if ok .createWorkqueue then [.workqueue c] else []) ++
    [Book.txBkSkb, .txBkDmaAddr, .txBkSize, .txBkPort, .rxBkSkb, .rxBkDmaAddr, .rxBkSize].flatMap
      fun b => if ok (.kmallocBook b) then [.book c b] else []

theorem takenBooks_eq (k : Holdings Resource) (c : ℕ) :
    takenBooks dev k ok c = k.acquireAll (bookResources dev ok c) := by
  simp only [takenBooks, taken, kmallocBooks, bookResources, Holdings.acquireIf_eq_acquireAll,
    List.foldl_cons, List.foldl_nil, List.flatMap_cons, List.flatMap_nil,
    Holdings.acquireAll_append]
  rfl

/-- What belongs to the device and the card. -/
theorem of_mem_bookResources {dev c : ℕ} {r : Resource} (hr : r ∈ bookResources dev ok c) :
    (∀ c' ∈ r.owner, c' = c) ∧ (∀ d, r ≠ .irq d) ∧ ∀ c', r ≠ .devClass c' := by
  rcases List.mem_append.mp hr with hfirst | hbook
  · rcases List.mem_append.mp hfirst with hnamed | hwq
    · simp only [List.mem_cons, List.not_mem_nil, or_false] at hnamed
      obtain rfl | rfl | rfl | rfl | rfl | rfl | rfl | rfl | rfl | rfl := hnamed
      all_goals simp [Resource.owner]
    · split at hwq
      · obtain rfl := List.mem_singleton.mp hwq
        simp [Resource.owner]
      · exact absurd hwq List.not_mem_nil
  · obtain ⟨b, -, hb⟩ := List.mem_flatMap.mp hbook
    split at hb
    · obtain rfl := List.mem_singleton.mp hb
      simp [Resource.owner]
    · exact absurd hb List.not_mem_nil

/-- A probe whose calls succeed, as far as their results are looked at. -/
theorem nf10Probe_binds (hearly : ok.succeed ProbeCall.early = true)
    (hbuffers : ok.succeed ProbeCall.buffers = true)
    (hbooks : (ok.succeed ProbeCall.books && ok .requestIrq) = true)
    (hnetdevs : ok.succeed ProbeCall.netdevs = true)
    (hchrdev : ok.succeed ProbeCall.chrdev = true) :
    ∃ new : List Resource, Binds s dev new (s.nf10Probe dev ok) := by
  obtain ⟨rx, hrx, hprobe⟩ := s.nf10Probe_fops dev hearly hbuffers hbooks hnetdevs
  obtain ⟨hret, hkernel, hcards, hbound, hdrvdata⟩ :=
    (s.withDevices dev ok rx).nf10fopsProbe_succeeds hchrdev (withNdevs ok s.cards)
  have hout : s.nf10Probe dev ok = (0,
      ((s.withDevices dev ok rx).nf10fopsProbe ok (withNdevs ok s.cards)).2.pciSetDrvdata dev
        (some (withNdevs ok s.cards))) := by
    rw [hprobe]
    simp only [hret]
    rfl
  rw [hout]
  refine ⟨bookResources dev ok s.cards ++ ifaceResources dev ok s.cards rx ++
    fopsResources ok s.cards, ?_⟩
  constructor
  · rfl
  · rw [Holdings.acquireAll_append, Holdings.acquireAll_append, ← takenBooks_eq]
    exact hkernel
  · exact hcards
  · exact hbound
  · refine ⟨withNdevs ok s.cards, rfl, ?_⟩
    exact congrArg (fun d => Function.update d dev (some (withNdevs ok s.cards))) hdrvdata
  · exact List.mem_append_left _ (List.mem_append_left _ (by simp [bookResources]))
  · intro r hr c hc
    rcases List.mem_append.mp hr with hfirst | hfops
    · rcases List.mem_append.mp hfirst with hbook | hiface
      · exact (of_mem_bookResources hbook).1 c hc
      · exact (of_mem_ifaceResources hrx hiface).2.1 c hc
    · rw [owner_of_mem_fopsResources hfops] at hc
      exact (Option.some.inj hc).symm
  · intro d hd
    rcases List.mem_append.mp hd with hfirst | hfops
    · rcases List.mem_append.mp hfirst with hbook | hiface
      · exact absurd rfl ((of_mem_bookResources hbook).2.1 d)
      · exact (of_mem_ifaceResources hrx hiface).2.2.1 d rfl
    · exact nomatch owner_of_mem_fopsResources hfops
  · intro c
    have hbook : (bookResources dev ok s.cards).count (.devClass c) = 0 :=
      List.count_eq_zero.mpr fun h => (of_mem_bookResources h).2.2 c rfl
    have hiface : (ifaceResources dev ok s.cards rx).count (.devClass c) = 0 :=
      List.count_eq_zero.mpr fun h => (of_mem_ifaceResources hrx h).2.2.2 c rfl
    have hfops : (fopsResources ok s.cards).count (.devClass c) ≤ 1 := by
      unfold fopsResources
      cases ok .classCreate <;> cases ok .deviceCreate <;> by_cases hc : s.cards = c <;>
        simp [hc]
    rw [List.count_append, List.count_append]
    omega

end DriverState

end CodeAnalyze.Nf10
