import Veloq.Waker.AtomicInvariant
set_option autoImplicit false

/-!
# Waker: the steps of an atomic waker keep its wakers whole

One lemma for each step.  Two kinds of stores come after the lock has been given back, and
need care: a `register` call that a wake-up got ahead of clears the data only afterwards, and
the cached copy is written and cleared without the lock.
-/

namespace Veloq.Waker

namespace WakerPc

variable {pc : WakerPc} {old : Option Nat} {data : Slot}

theorem busy_of_reading (h : pc = .replace old ∨ pc = .takeData old) : pc.busy = true := by
  rcases h with rfl | rfl <;> rfl

theorem busy_of_carrying (h : pc = .takeClear old data ∨ pc = .takeReset old data) :
    pc.busy = true := by
  rcases h with rfl | rfl <;> rfl

end WakerPc

namespace AtomicWaker

/-! ## The moments that need care -/

/-- The data is going to be read, or is that of the registered waker. -/
def InUse (s : AtomicWaker) : Prop :=
  s.vtable.tag = .registered ∨ (s.vtable.tag = .registering ∧ ∃ g old, (s.tasks g).pc = .publish old) ∨
    ∃ g old, (s.tasks g).pc = .replace old ∨ (s.tasks g).pc = .takeData old

/-- The data is cleared only while nobody else has put it to use; and what is written to the
cached copy agrees with the registered waker, or whoever has registered that is still to
write it. -/
def Careful (s : AtomicWaker) (e : Nat × WakerAction) : Prop :=
  e.2 = .advance →
    match (s.tasks e.1).pc with
    | .resetData => ¬ s.InUse
    | .cacheVtable => s.Agrees (some (s.waker e.1).vtable) s.cachedData ∨ ∃ g, s.Caches g
    | .cacheData => s.Agrees s.cachedVtable (s.waker e.1).data ∨ ∃ g, g ≠ e.1 ∧ s.Caches g
    | .clearData => s.Agrees s.cachedVtable 0 ∨ ∃ g, s.Caches g
    | _ => True

variable {s s' : AtomicWaker} {f g : Nat} {pc pc' : WakerPc} {old : Option Nat} {data : Slot}

namespace Inv

/-! ## Steps without the lock -/

/-- A call acts without the lock. -/
theorem outside (h : s.Inv) (hframe : Frame s s' f)
    (hvtable : s'.vtable = s.vtable ∨ s'.vtable.tag = .waking)
    (hpc : (s.tasks f).pc = pc) (hpc' : (s'.tasks f).pc = pc') (hbusy : pc.busy = false)
    (hbusy' : pc'.busy = false) (hfresh : pc' ≠ .fresh) (hproper : pc'.Proper)
    (harg : pc'.registers = true → ∃ w, (s'.tasks f).arg = some w)
    (hdata : s'.data = s.data ∨ ¬ s.InUse) (hnodup : s'.consumed.Nodup)
    (hnew : ∀ c ∈ s'.consumed, c ∈ s.consumed ∨ c = some f ∧ pc.published = false)
    (hgiven : ∀ c ∈ s'.consumed, ∃ g, c = some g ∧ (s'.tasks g).pc.published = true)
    (hsound : ∀ e ∈ s'.log, s'.Sound e)
    (hcache : s'.Agrees s'.cachedVtable s'.cachedData ∨ ∃ g, s'.Caches g) : s'.Inv := by
  have hother : ∀ g, (s'.tasks g).pc.busy = true → s'.tasks g = s.tasks g := by
    intro g hg
    refine hframe.others g ?_
    rintro rfl
    rw [hpc', hbusy'] at hg
    exact absurd hg (by simp)
  have hvalid : ∀ {vtable : Option Nat} {data : Slot}, s.Valid vtable data →
      s'.Valid vtable data := by
    intro vtable data hv
    refine hframe.valid hv fun hmem => (hnew _ hmem).elim id ?_
    rintro ⟨hclone, hpub⟩
    obtain ⟨g, w, hg, -, -, -, hpub', -⟩ := hv
    rw [hclone] at hg
    obtain rfl := Option.some.inj hg
    rw [hpc, hpub] at hpub'
    exact absurd hpub' (by simp)
  refine ⟨?_, fun g hg => ?_, fun g => ?_, fun g hg => ?_, fun htag => ?_, fun g old hg => ?_,
    fun g old data hg => ?_, fun g old hg htag => ?_, hnodup, hgiven, hsound, hcache⟩
  · have hkeep : Locked s.vtable fun g => (s'.tasks g).pc := by
      refine h.locked.keep (f := f) (fun g hne => by rw [hframe.others g hne]) ?_ fun hf => ?_
      · rw [hpc, hpc', hbusy, hbusy']
      · have hf := WakerPc.busy_of_holding hf
        rw [hpc, hbusy] at hf
        exact absurd hf (by simp)
    rcases hvtable with heq | hwaking
    · rw [heq]
      exact hkeep
    · exact hkeep.mark hwaking
  · by_cases hne : g = f
    · rw [hne, hpc'] at hg
      exact absurd hg hfresh
    · rw [hframe.others g hne] at hg ⊢
      exact h.unused g hg
  · by_cases hne : g = f
    · rw [hne, hpc']
      exact hproper
    · rw [hframe.others g hne]
      exact h.proper g
  · by_cases hne : g = f
    · rw [hne, hpc'] at hg
      rw [hne]
      exact harg hg
    · rw [hframe.others g hne] at hg ⊢
      exact h.args g hg
  · have heqv : s'.vtable = s.vtable :=
      hvtable.resolve_right fun hwaking => by rw [hwaking] at htag; exact absurd htag (by simp)
    rw [heqv] at htag ⊢
    rcases hdata with heq | hfree
    · rw [heq]
      exact hvalid (h.registered htag)
    · exact absurd (Or.inl htag) hfree
  · rw [hother g (WakerPc.busy_of_reading hg)] at hg
    rcases hdata with heq | hfree
    · rw [heq]
      exact hvalid (h.reading g old hg)
    · exact absurd (Or.inr (Or.inr ⟨g, old, hg⟩)) hfree
  · rw [hother g (WakerPc.busy_of_carrying hg)] at hg
    exact hvalid (h.carrying g old data hg)
  · have heqv : s'.vtable = s.vtable :=
      hvtable.resolve_right fun hwaking => by rw [hwaking] at htag; exact absurd htag (by simp)
    have heqg := hother g (by rw [hg]; rfl)
    rw [heqv] at htag
    rw [heqg] at hg
    rcases hdata with heq | hfree
    · unfold waker
      rw [heq, heqg]
      exact h.publishing g old hg htag
    · exact absurd (Or.inr (Or.inl ⟨htag, g, old, hg⟩)) hfree

/-- What is true of the cached copy stays so while others than `f` act on it. -/
theorem cache_keep (h : s.Inv) (hframe : Frame s s' f) (hvtable : s'.vtable = s.vtable)
    (hdata : s'.data = s.data) (hcachedVtable : s'.cachedVtable = s.cachedVtable)
    (hcachedData : s'.cachedData = s.cachedData) (hf : (s.tasks f).pc.caching = false) :
    s'.Agrees s'.cachedVtable s'.cachedData ∨ ∃ g, s'.Caches g := by
  refine h.cache.imp (fun hagrees => ?_) ?_
  · unfold Agrees at hagrees ⊢
    rw [hvtable, hdata, hcachedVtable, hcachedData]
    exact hagrees
  · rintro ⟨g, hcaching, hw⟩
    have hne : g ≠ f := by
      rintro rfl
      rw [hf] at hcaching
      exact absurd hcaching (by simp)
    refine ⟨g, ?_⟩
    unfold Caches
    rw [hframe.others g hne, hvtable, hdata]
    exact ⟨hcaching, hw⟩

theorem gotoFrame (s : AtomicWaker) (hpub : (s.tasks f).pc.published = true → pc.published = true)
    {s' : AtomicWaker} (htasks : s'.tasks = (s.goto f pc).tasks) : Frame s s' f := by
  refine ⟨fun g hne => ?_, fun w hw => ?_, fun hp => ?_⟩
  · rw [htasks]
    exact goto_of_ne hne
  · rw [htasks, goto_self]
    exact hw
  · rw [htasks, goto_self]
    exact hpub hp

/-- A call goes on and nothing else changes. -/
theorem move (h : s.Inv) (hpc : (s.tasks f).pc = pc) (hbusy : pc.busy = false)
    (hpub : pc.published = false) (hbusy' : pc'.busy = false) (hfresh : pc' ≠ .fresh)
    (hproper : pc'.Proper) (harg : pc'.registers = true → pc.registers = true) :
    (s.goto f pc').Inv := by
  have hframe : Frame s (s.goto f pc') f :=
    gotoFrame s (by rw [hpc, hpub]; exact nofun) rfl
  have hself : ((s.goto f pc').tasks f).pc = pc' := by rw [goto_self]
  refine h.outside hframe (Or.inl rfl) hpc hself hbusy hbusy' hfresh hproper (fun hr => ?_) (Or.inl rfl) h.nodup
    (fun c hc => Or.inl hc) (hframe.given h.given) (fun e he => hframe.sound (h.sound e he))
    (h.cache_keep hframe rfl rfl rfl rfl ?_)
  · obtain ⟨w, hw⟩ := h.args f (by rw [hpc]; exact harg hr)
    exact ⟨w, hframe.args hw⟩
  · rw [hpc]
    revert hpub
    cases pc <;> simp [WakerPc.published, WakerPc.caching]

theorem register (h : s.Inv) (hpc : (s.tasks f).pc = .fresh) (w : RawWaker) :
    (s.register f w).Inv := by
  have hself : (s.register f w).tasks f = { arg := some w, pc := .cachedVtable } :=
    Function.update_self ..
  have hframe : Frame s (s.register f w) f := by
    refine ⟨fun g hne => Function.update_of_ne hne .., fun w' hw' => ?_, fun hp => ?_⟩
    · rw [h.unused f hpc] at hw'
      exact absurd hw' (by simp)
    · rw [hpc] at hp
      exact absurd hp (by simp [WakerPc.published])
  have hpc' : ((s.register f w).tasks f).pc = .cachedVtable := by rw [hself]
  refine h.outside hframe (Or.inl rfl) hpc hpc' rfl rfl nofun trivial
    (fun _ => ⟨w, by rw [hself]⟩) (Or.inl rfl) h.nodup (fun c hc => Or.inl hc) (hframe.given h.given)
    (fun e he => hframe.sound (h.sound e he)) (h.cache_keep hframe rfl rfl rfl rfl ?_)
  rw [hpc]
  rfl

theorem loadCachedData (h : s.Inv) {seen : Option Nat} (hpc : (s.tasks f).pc = .cachedData seen) :
    (s.loadCachedData f seen).Inv := by
  unfold AtomicWaker.loadCachedData
  split <;> exact h.move hpc rfl rfl rfl nofun trivial fun _ => rfl

theorem quickCheck (h : s.Inv) (hpc : (s.tasks f).pc = .quick) : (s.quickCheck f).Inv := by
  unfold AtomicWaker.quickCheck
  split <;> exact h.move hpc rfl rfl rfl nofun trivial fun _ => rfl

theorem turn (h : s.Inv) (hpc : (s.tasks f).pc = pc) (hbusy : pc.busy = false)
    (hpub : pc.published = false) (hregisters : pc.registers = true) (seen : Word) :
    (s.turn f seen).Inv := by
  unfold AtomicWaker.turn
  split
  · have hframe : Frame s { s.goto f .gone with log := .byRef f :: s.log } f :=
      gotoFrame s (by rw [hpc, hpub]; exact nofun) rfl
    have hself : ((s.goto f .gone).tasks f).pc = .gone := by rw [goto_self]
    refine h.outside hframe (Or.inl rfl) hpc hself hbusy rfl nofun trivial nofun (Or.inl rfl) h.nodup
      (fun c hc => Or.inl hc) (hframe.given h.given) (fun e he => ?_)
      (h.cache_keep hframe rfl rfl rfl rfl ?_)
    · rcases List.mem_cons.mp he with rfl | he
      · trivial
      · exact hframe.sound (h.sound e he)
    · rw [hpc]
      revert hpub
      cases pc <;> simp [WakerPc.published, WakerPc.caching]
  · exact h.move hpc hbusy hpub rfl nofun trivial nofun
  · rename_i htag
    split
    · exact h.move hpc hbusy hpub rfl nofun (Or.inl htag) fun _ => hregisters
    · exact h.move hpc hbusy hpub rfl nofun trivial fun _ => hregisters
  · rename_i htag
    exact h.move hpc hbusy hpub rfl nofun (Or.inr htag) fun _ => hregisters

theorem takeTurn (h : s.Inv) (hpc : (s.tasks f).pc = pc) (hbusy : pc.busy = false)
    (hpub : pc.published = false) (seen : Word) : (s.takeTurn f seen).Inv := by
  unfold AtomicWaker.takeTurn
  split
  · rename_i htag
    exact h.move hpc hbusy hpub rfl nofun htag nofun
  · rename_i htag
    exact h.move hpc hbusy hpub rfl nofun htag nofun
  · exact h.move hpc hbusy hpub rfl nofun trivial nofun
  · exact h.move hpc hbusy hpub rfl nofun trivial nofun

/-! ## Steps with the lock -/

/-- A call acts that is or becomes alone with the data. -/
theorem alone (h : s.Inv) (hframe : Frame s s' f)
    (hnone : ∀ g, g ≠ f → (s.tasks g).pc.busy = false)
    (hlocked : Locked s'.vtable fun g => (s'.tasks g).pc) (hpc' : (s'.tasks f).pc = pc')
    (hfresh : pc' ≠ .fresh) (hproper : pc'.Proper)
    (harg : pc'.registers = true → ∃ w, (s'.tasks f).arg = some w)
    (hregistered : s'.vtable.tag = .registered → s'.Valid s'.vtable.ptr s'.data)
    (hreading : ∀ old, pc' = .replace old ∨ pc' = .takeData old → s'.Valid old s'.data)
    (hcarrying : ∀ old data, pc' = .takeClear old data ∨ pc' = .takeReset old data →
      s'.Valid old data)
    (hpublishing : ∀ old, pc' = .publish old → s'.vtable.tag = .registering →
      s'.data = { ptr := (s'.waker f).data, clone := some f })
    (hnodup : s'.consumed.Nodup)
    (hgiven : ∀ c ∈ s'.consumed, ∃ g, c = some g ∧ (s'.tasks g).pc.published = true)
    (hsound : ∀ e ∈ s'.log, s'.Sound e)
    (hcache : s'.Agrees s'.cachedVtable s'.cachedData ∨ ∃ g, s'.Caches g) : s'.Inv := by
  have hself : ∀ g, (s'.tasks g).pc.busy = true → g = f := by
    intro g hg
    by_contra hne
    rw [hframe.others g hne, hnone g hne] at hg
    exact absurd hg (by simp)
  refine ⟨hlocked, fun g hg => ?_, fun g => ?_, fun g hg => ?_, hregistered, fun g old hg => ?_,
    fun g old data hg => ?_, fun g old hg htag => ?_, hnodup, hgiven, hsound, hcache⟩
  · by_cases hne : g = f
    · rw [hne, hpc'] at hg
      exact absurd hg hfresh
    · rw [hframe.others g hne] at hg ⊢
      exact h.unused g hg
  · by_cases hne : g = f
    · rw [hne, hpc']
      exact hproper
    · rw [hframe.others g hne]
      exact h.proper g
  · by_cases hne : g = f
    · rw [hne, hpc'] at hg
      rw [hne]
      exact harg hg
    · rw [hframe.others g hne] at hg ⊢
      exact h.args g hg
  · rw [hself g (WakerPc.busy_of_reading hg), hpc'] at hg
    exact hreading old hg
  · rw [hself g (WakerPc.busy_of_carrying hg), hpc'] at hg
    exact hcarrying old data hg
  · obtain rfl := hself g (by rw [hg]; rfl)
    rw [hpc'] at hg
    exact hpublishing old hg htag

/-- Nothing is registered, so the cached copy leads nobody astray. -/
theorem agrees_of_ne {cachedVtable : Option Nat} {cachedData : Nat}
    (h : s.vtable.tag ≠ .registered) : s.Agrees cachedVtable cachedData :=
  fun htag => absurd htag h

theorem tryAcquire (h : s.Inv) {seen : Word} (hpc : (s.tasks f).pc = .acquire seen) :
    (s.tryAcquire f seen).Inv := by
  unfold AtomicWaker.tryAcquire
  split
  · rename_i hseen
    have hproper : seen.tag = .idle ∨ seen.tag = .registered := by
      have hp := h.proper f
      rw [hpc] at hp
      exact hp
    have hfree : s.vtable.tag = .idle ∨ s.vtable.tag = .registered := by
      rw [hseen]
      exact hproper
    obtain ⟨w, hw⟩ := h.args f (by rw [hpc]; rfl)
    generalize hnext : (if seen.tag = .registered then WakerPc.replace seen.ptr
      else .store seen.ptr) = next
    have hholding : next.holding = true := by
      rw [← hnext]
      split <;> rfl
    have hframe : Frame s { s.goto f next with vtable := { seen with tag := .registering } } f :=
      gotoFrame s (by rw [hpc]; nofun) rfl
    have hself : ((s.goto f next).tasks f).pc = next := by rw [goto_self]
    refine h.alone hframe (fun g _ => h.locked.free hfree g) ?_ hself ?_ ?_
      (fun _ => ⟨w, hframe.args hw⟩) nofun ?_ ?_ ?_ h.nodup (hframe.given h.given)
      (fun e he => hframe.sound (h.sound e he)) (Or.inl (agrees_of_ne nofun))
    · refine h.locked.lock (f := f) hfree (fun g hne => by rw [hframe.others g hne])
        (Or.inr ⟨rfl, ?_⟩)
      rw [hself]
      exact hholding
    · rintro rfl
      exact absurd hholding (by simp [WakerPc.holding])
    · rw [← hnext]
      split <;> trivial
    · intro old hold
      rw [← hnext] at hold
      split at hold
      · rename_i htag
        obtain rfl : seen.ptr = old := by simpa using hold
        have hvalid := h.registered (by rw [hseen]; exact htag)
        rw [hseen] at hvalid
        exact hframe.valid hvalid id
      · exact absurd hold (by simp)
    · intro old data hold
      rw [← hnext] at hold
      split at hold <;> exact absurd hold (by simp)
    · intro old hold
      rw [← hnext] at hold
      split at hold <;> exact absurd hold (by simp)
  · exact h.turn hpc rfl rfl rfl s.vtable

theorem dropOld (h : s.Inv) (hpc : (s.tasks f).pc = .replace old) : (s.dropOld f old).Inv := by
  have hvalid := h.reading f old (Or.inl hpc)
  have hwhole := hvalid.whole
  obtain ⟨g, w, hclone, harg, hold, hdata, hpub, hnot⟩ := hvalid
  obtain ⟨w', hw'⟩ := h.args f (by rw [hpc]; rfl)
  unfold AtomicWaker.dropOld
  rw [if_neg (by rw [hold]; simp)]
  have hframe : Frame s { s.goto f (.store old) with log := .dropped old s.data :: s.log } f :=
    gotoFrame s (by rw [hpc]; nofun) rfl
  have hself : ((s.goto f (.store old)).tasks f).pc = .store old := by rw [goto_self]
  have hbusy : (s.tasks f).pc.busy = true := by
    rw [hpc]
    rfl
  have htag := (h.locked.not_free hbusy).2
  refine h.alone hframe (fun _ hne => h.locked.alone hbusy hne) ?_ hself nofun trivial
    (fun _ => ⟨w', hframe.args hw'⟩) (fun heq => absurd heq htag) nofun nofun nofun ?_ ?_ ?_
    (Or.inl (agrees_of_ne htag))
  · exact h.locked.keep (f := f) (fun g hne => by rw [hframe.others g hne])
      (by rw [hself, hpc]; rfl) fun _ => by rw [hself]; rfl
  · show (s.data.clone :: s.consumed).Nodup
    rw [hclone]
    exact List.nodup_cons.mpr ⟨hnot, h.nodup⟩
  · intro c hc
    rcases List.mem_cons.mp (show c ∈ s.data.clone :: s.consumed from hc) with rfl | hc
    · exact ⟨g, hclone, hframe.publishes hpub⟩
    · exact hframe.given h.given c hc
  · intro e he
    rcases List.mem_cons.mp he with rfl | he
    · exact hframe.whole hwhole
    · exact hframe.sound (h.sound e he)

theorem storeData (h : s.Inv) (hpc : (s.tasks f).pc = .store old) : (s.storeData f old).Inv := by
  obtain ⟨w, hw⟩ := h.args f (by rw [hpc]; rfl)
  have hframe : Frame s (s.storeData f old) f := gotoFrame s (by rw [hpc]; nofun) rfl
  have hself : (s.storeData f old).tasks f = { s.tasks f with pc := .publish old } := goto_self
  have hpc' : ((s.storeData f old).tasks f).pc = .publish old := by rw [hself]
  have hbusy : (s.tasks f).pc.busy = true := by
    rw [hpc]
    rfl
  have htag := (h.locked.not_free hbusy).2
  refine h.alone hframe (fun _ hne => h.locked.alone hbusy hne) ?_ hpc' nofun trivial
    (fun _ => ⟨w, hframe.args hw⟩) (fun heq => absurd heq htag) nofun nofun (fun _ _ _ => ?_)
    h.nodup (hframe.given h.given) (fun e he => hframe.sound (h.sound e he))
    (Or.inl (agrees_of_ne htag))
  · exact h.locked.keep (f := f) (fun g hne => by rw [hframe.others g hne])
      (by rw [hpc', hpc]; rfl) fun _ => by rw [hpc']; rfl
  · rw [waker_of_arg (hframe.args hw)]
    show ({ ptr := (s.waker f).data, clone := some f } : Slot) = _
    rw [waker_of_arg hw]

theorem tryPublish (h : s.Inv) (hpc : (s.tasks f).pc = .publish old) : (s.tryPublish f old).Inv := by
  obtain ⟨w, hw⟩ := h.args f (by rw [hpc]; rfl)
  have hbusy : (s.tasks f).pc.busy = true := by
    rw [hpc]
    rfl
  have htag := (h.locked.not_free hbusy).2
  unfold AtomicWaker.tryPublish
  split
  · rename_i hword
    have hdata := h.publishing f old hpc (by rw [hword])
    rw [waker_of_arg hw] at hdata ⊢
    generalize hs' : ({ s.goto f .cacheVtable with
      vtable := { ptr := some w.vtable, tag := .registered } } : AtomicWaker) = s'
    have hself : s'.tasks f = { s.tasks f with pc := .cacheVtable } := by
      rw [← hs']
      exact goto_self
    have hframe : Frame s s' f := gotoFrame s (by rw [hpc]; nofun) (by rw [← hs'])
    have hpc' : (s'.tasks f).pc = .cacheVtable := by rw [hself]
    have hvtable : s'.vtable = { ptr := some w.vtable, tag := .registered } := by rw [← hs']
    have hdata' : s'.data = { ptr := w.data, clone := some f } := by
      rw [← hs']
      exact hdata
    have hlog : s'.log = s.log := by rw [← hs']; rfl
    have hconsumed : s'.consumed = s.consumed := by
      unfold consumed
      rw [hlog]
    have hvalid : s'.Valid s'.vtable.ptr s'.data := by
      refine ⟨f, w, by rw [hdata'], hframe.args hw, by rw [hvtable], by rw [hdata'],
        by rw [hpc']; rfl, fun hmem => ?_⟩
      rw [hconsumed] at hmem
      obtain ⟨g, heq, hpub⟩ := h.given _ hmem
      obtain rfl := Option.some.inj heq
      rw [hpc] at hpub
      exact absurd hpub (by simp [WakerPc.published])
    refine h.alone hframe (fun _ hne => h.locked.alone hbusy hne) ?_ hpc' nofun trivial
      (fun _ => ⟨w, hframe.args hw⟩) (fun _ => hvalid) nofun nofun nofun ?_ ?_ ?_ (Or.inr ⟨f, ?_⟩)
    · exact h.locked.unlock (f := f) hbusy (fun g hne => by rw [hframe.others g hne])
        (by rw [hpc']; rfl) (Or.inr (by rw [hvtable]))
    · rw [hconsumed]
      exact h.nodup
    · rw [hconsumed]
      exact hframe.given h.given
    · rw [hlog]
      exact fun e he => hframe.sound (h.sound e he)
    · exact ⟨by rw [hpc']; rfl, w, hframe.args hw, by rw [hvtable], by rw [hdata']⟩
  · have hframe : Frame s (s.goto f .resetVtable) f := gotoFrame s (by rw [hpc]; nofun) rfl
    have hpc' : ((s.goto f .resetVtable).tasks f).pc = .resetVtable := by rw [goto_self]
    refine h.alone hframe (fun _ hne => h.locked.alone hbusy hne) ?_ hpc' nofun trivial
      (fun _ => ⟨w, hframe.args hw⟩) (fun heq => absurd heq htag) nofun nofun nofun h.nodup
      (hframe.given h.given) (fun e he => hframe.sound (h.sound e he)) (Or.inl (agrees_of_ne htag))
    exact h.locked.keep (f := f) (fun g hne => by rw [hframe.others g hne])
      (by rw [hpc', hpc]; rfl) fun _ => by rw [hpc']; rfl

theorem resetVtable (h : s.Inv) (hpc : (s.tasks f).pc = .resetVtable) : (s.resetVtable f).Inv := by
  obtain ⟨w, hw⟩ := h.args f (by rw [hpc]; rfl)
  have hbusy : (s.tasks f).pc.busy = true := by
    rw [hpc]
    rfl
  have hframe : Frame s (s.resetVtable f) f := gotoFrame s (by rw [hpc]; nofun) rfl
  have hself : (s.resetVtable f).tasks f = { s.tasks f with pc := .resetData } := goto_self
  have hpc' : ((s.resetVtable f).tasks f).pc = .resetData := by rw [hself]
  refine h.alone hframe (fun _ hne => h.locked.alone hbusy hne) ?_ hpc' nofun trivial
    (fun _ => ⟨w, hframe.args hw⟩) nofun nofun nofun nofun h.nodup (hframe.given h.given)
    (fun e he => hframe.sound (h.sound e he)) (Or.inl (agrees_of_ne nofun))
  exact h.locked.unlock (f := f) hbusy (fun g hne => by rw [hframe.others g hne])
    (by rw [hpc']; rfl) (Or.inl rfl)

/-! ## After the lock has been given back -/

theorem resetData (h : s.Inv) (hpc : (s.tasks f).pc = .resetData) (hcare : ¬ s.InUse) :
    (s.resetData f).Inv := by
  obtain ⟨w, hw⟩ := h.args f (by rw [hpc]; rfl)
  have hframe : Frame s (s.resetData f) f := gotoFrame s (by rw [hpc]; nofun) rfl
  have hself : (s.resetData f).tasks f = { s.tasks f with pc := .clearVtable } := goto_self
  have hpc' : ((s.resetData f).tasks f).pc = .clearVtable := by rw [hself]
  exact h.outside hframe (Or.inl rfl) hpc hpc' rfl rfl nofun trivial
    (fun _ => ⟨w, hframe.args hw⟩) (Or.inr hcare) h.nodup (fun c hc => Or.inl hc)
    (hframe.given h.given) (fun e he => hframe.sound (h.sound e he))
    (Or.inl (agrees_of_ne fun htag => hcare (Or.inl htag)))

/-- The cached copy is written. -/
theorem recache (h : s.Inv) {cachedVtable : Option Nat} {cachedData : Nat}
    (hpc : (s.tasks f).pc = pc) (hbusy : pc.busy = false)
    (hpub : pc.published = true → pc'.published = true) (hbusy' : pc'.busy = false)
    (hfresh : pc' ≠ .fresh) (hproper : pc'.Proper) (hregisters : pc.registers = true)
    (hcare : s.Agrees cachedVtable cachedData ∨
      ∃ g, (g ≠ f ∨ pc'.caching = true) ∧ s.Caches g) :
    Inv { s.goto f pc' with cachedVtable := cachedVtable, cachedData := cachedData } := by
  obtain ⟨w, hw⟩ := h.args f (by rw [hpc]; exact hregisters)
  have hframe : Frame s
      { s.goto f pc' with cachedVtable := cachedVtable, cachedData := cachedData } f :=
    gotoFrame s (by rw [hpc]; exact hpub) rfl
  have hself : ((s.goto f pc').tasks f).pc = pc' := by rw [goto_self]
  refine h.outside hframe (Or.inl rfl) hpc hself hbusy hbusy' hfresh hproper
    (fun _ => ⟨w, hframe.args hw⟩) (Or.inl rfl) h.nodup (fun c hc => Or.inl hc)
    (hframe.given h.given) (fun e he => hframe.sound (h.sound e he)) (hcare.imp id ?_)
  rintro ⟨g, hwho, hcaching, w', hw', hsame⟩
  refine ⟨g, ?_, w', hframe.args hw', hsame⟩
  by_cases hne : g = f
  · rw [hne]
    show ((s.goto f pc').tasks f).pc.caching = true
    rw [hself]
    exact hwho.resolve_left fun hnot => hnot hne
  · rw [hframe.others g hne]
    exact hcaching

theorem storeCachedVtable (h : s.Inv) (hpc : (s.tasks f).pc = .cacheVtable)
    (hcare : s.Agrees (some (s.waker f).vtable) s.cachedData ∨ ∃ g, s.Caches g) :
    (s.storeCachedVtable f).Inv :=
  h.recache hpc rfl (fun _ => rfl) rfl nofun trivial rfl
    (hcare.imp_right fun ⟨g, hg⟩ => ⟨g, Or.inr rfl, hg⟩)

theorem storeCachedData (h : s.Inv) (hpc : (s.tasks f).pc = .cacheData)
    (hcare : s.Agrees s.cachedVtable (s.waker f).data ∨ ∃ g, g ≠ f ∧ s.Caches g) :
    (s.storeCachedData f).Inv :=
  h.recache hpc rfl (fun _ => rfl) rfl nofun trivial rfl
    (hcare.imp_right fun ⟨g, hne, hg⟩ => ⟨g, Or.inl hne, hg⟩)

theorem clearCachedVtable (h : s.Inv) (hpc : (s.tasks f).pc = .clearVtable) :
    (s.clearCachedVtable f).Inv := by
  refine h.recache hpc rfl nofun rfl nofun trivial rfl (Or.inl fun htag hnone => ?_)
  obtain ⟨g, w, -, -, hptr, -⟩ := h.registered htag
  rw [hptr] at hnone
  exact absurd hnone (by simp)

theorem clearCachedData (h : s.Inv) (hpc : (s.tasks f).pc = .clearData)
    (hcare : s.Agrees s.cachedVtable 0 ∨ ∃ g, s.Caches g) : (s.clearCachedData f).Inv := by
  refine h.recache hpc rfl nofun rfl nofun trivial rfl (hcare.imp_right fun ⟨g, hg⟩ => ?_)
  refine ⟨g, Or.inl ?_, hg⟩
  rintro rfl
  have hcaching := hg.1
  rw [hpc] at hcaching
  exact absurd hcaching (by simp [WakerPc.caching])

theorem wakeOwn (h : s.Inv) (hpc : (s.tasks f).pc = .wakeOwn) : (s.wakeOwn f).Inv := by
  have hframe : Frame s (s.wakeOwn f) f := gotoFrame s (by rw [hpc]; nofun) rfl
  have hself : (s.wakeOwn f).tasks f = { s.tasks f with pc := .gone } := goto_self
  have hpc' : ((s.wakeOwn f).tasks f).pc = .gone := by rw [hself]
  have hnot : some f ∉ s.consumed := by
    intro hmem
    obtain ⟨g, heq, hpub⟩ := h.given _ hmem
    obtain rfl := Option.some.inj heq
    rw [hpc] at hpub
    exact absurd hpub (by simp [WakerPc.published])
  have hmem : ∀ c ∈ (s.wakeOwn f).consumed, c = some f ∨ c ∈ s.consumed :=
    fun c hc => List.mem_cons.mp (show c ∈ some f :: s.consumed from hc)
  refine h.outside hframe (Or.inl rfl) hpc hpc' rfl rfl nofun trivial nofun (Or.inl rfl)
    (List.nodup_cons.mpr ⟨hnot, h.nodup⟩) (fun c hc => ?_) (fun c hc => ?_) (fun e he => ?_)
    (h.cache_keep hframe rfl rfl rfl rfl (by rw [hpc]; rfl))
  · exact (hmem c hc).symm.imp_right fun heq => ⟨heq, rfl⟩
  · rcases hmem c hc with rfl | hc
    · exact ⟨f, rfl, by rw [hpc']; rfl⟩
    · exact hframe.given h.given c hc
  · rcases List.mem_cons.mp he with rfl | he
    · trivial
    · exact hframe.sound (h.sound e he)

/-! ## `take` -/

theorem mark (h : s.Inv) {seen : Word} (hpc : (s.tasks f).pc = .takeMark seen) :
    (s.mark f seen).Inv := by
  unfold AtomicWaker.mark
  split
  · have hframe : Frame s { s.goto f .gone with vtable := { seen with tag := .waking } } f :=
      gotoFrame s (by rw [hpc]; nofun) rfl
    have hself : ((s.goto f .gone).tasks f).pc = .gone := by rw [goto_self]
    exact h.outside hframe (Or.inr rfl) hpc hself rfl rfl nofun trivial nofun (Or.inl rfl) h.nodup
      (fun c hc => Or.inl hc) (hframe.given h.given) (fun e he => hframe.sound (h.sound e he))
      (Or.inl (agrees_of_ne nofun))
  · exact h.takeTurn hpc rfl rfl s.vtable

theorem claim (h : s.Inv) {seen : Word} (hpc : (s.tasks f).pc = .takeClaim seen) :
    (s.claim f seen).Inv := by
  unfold AtomicWaker.claim
  split
  · rename_i hseen
    have htag : s.vtable.tag = .registered := by
      have hp := h.proper f
      rw [hpc] at hp
      rw [hseen]
      exact hp
    have hvalid := h.registered htag
    rw [hseen] at hvalid
    have hframe : Frame s
        { s.goto f (.takeData seen.ptr) with vtable := { seen with tag := .waking } } f :=
      gotoFrame s (by rw [hpc]; nofun) rfl
    have hself : ((s.goto f (.takeData seen.ptr)).tasks f).pc = .takeData seen.ptr := by
      rw [goto_self]
    refine h.alone hframe (fun g _ => h.locked.free (Or.inr htag) g) ?_ hself nofun trivial nofun
      nofun (fun old hold => ?_) nofun nofun h.nodup (hframe.given h.given)
      (fun e he => hframe.sound (h.sound e he)) (Or.inl (agrees_of_ne nofun))
    · exact h.locked.lock (f := f) (Or.inr htag) (fun g hne => by rw [hframe.others g hne])
        (Or.inl rfl)
    · obtain rfl : seen.ptr = old := by simpa using hold
      exact hframe.valid hvalid id
  · exact h.takeTurn hpc rfl rfl s.vtable

theorem takeData (h : s.Inv) (hpc : (s.tasks f).pc = .takeData old) :
    (s.goto f (.takeClear old s.data)).Inv := by
  have hvalid := h.reading f old (Or.inr hpc)
  have hbusy : (s.tasks f).pc.busy = true := by
    rw [hpc]
    rfl
  have htag := (h.locked.not_free hbusy).2
  have hframe : Frame s (s.goto f (.takeClear old s.data)) f := gotoFrame s (by rw [hpc]; nofun) rfl
  have hself : ((s.goto f (.takeClear old s.data)).tasks f).pc = .takeClear old s.data := by
    rw [goto_self]
  refine h.alone hframe (fun _ hne => h.locked.alone hbusy hne) ?_ hself nofun trivial nofun
    (fun heq => absurd heq htag) nofun (fun old' data hold => ?_) nofun h.nodup
    (hframe.given h.given) (fun e he => hframe.sound (h.sound e he)) (Or.inl (agrees_of_ne htag))
  · exact h.locked.keep (f := f) (fun g hne => by rw [hframe.others g hne])
      (by rw [hself, hpc]; rfl) (by rw [hpc]; nofun)
  · obtain ⟨rfl, rfl⟩ : old = old' ∧ s.data = data := by simpa using hold
    exact hframe.valid hvalid id

theorem takeClear (h : s.Inv) (hpc : (s.tasks f).pc = .takeClear old data) :
    (s.takeClear f old data).Inv := by
  have hvalid := h.carrying f old data (Or.inl hpc)
  have hbusy : (s.tasks f).pc.busy = true := by
    rw [hpc]
    rfl
  have htag := (h.locked.not_free hbusy).2
  have hframe : Frame s (s.takeClear f old data) f := gotoFrame s (by rw [hpc]; nofun) rfl
  have hself : (s.takeClear f old data).tasks f = { s.tasks f with pc := .takeReset old data } :=
    goto_self
  have hpc' : ((s.takeClear f old data).tasks f).pc = .takeReset old data := by rw [hself]
  refine h.alone hframe (fun _ hne => h.locked.alone hbusy hne) ?_ hpc' nofun trivial nofun
    (fun heq => absurd heq htag) nofun (fun old' data' hold => ?_) nofun h.nodup
    (hframe.given h.given) (fun e he => hframe.sound (h.sound e he)) (Or.inl (agrees_of_ne htag))
  · exact h.locked.keep (f := f) (fun g hne => by rw [hframe.others g hne])
      (by rw [hpc', hpc]; rfl) (by rw [hpc]; nofun)
  · obtain ⟨rfl, rfl⟩ : old = old' ∧ data = data' := by simpa using hold
    exact hframe.valid hvalid id

theorem takeReset (h : s.Inv) (hpc : (s.tasks f).pc = .takeReset old data) :
    (s.takeReset f old data).Inv := by
  have hvalid := h.carrying f old data (Or.inr hpc)
  have hwhole := hvalid.whole
  obtain ⟨g, w, hclone, -, -, -, hpub, hnot⟩ := hvalid
  have hbusy : (s.tasks f).pc.busy = true := by
    rw [hpc]
    rfl
  have hframe : Frame s (s.takeReset f old data) f := gotoFrame s (by rw [hpc]; nofun) rfl
  have hself : (s.takeReset f old data).tasks f = { s.tasks f with pc := .gone } := goto_self
  have hpc' : ((s.takeReset f old data).tasks f).pc = .gone := by rw [hself]
  refine h.alone hframe (fun _ hne => h.locked.alone hbusy hne) ?_ hpc' nofun trivial nofun nofun
    nofun nofun nofun ?_ ?_ ?_ (Or.inl (agrees_of_ne nofun))
  · exact h.locked.unlock (f := f) hbusy (fun g hne => by rw [hframe.others g hne])
      (by rw [hpc']; rfl) (Or.inl rfl)
  · show (data.clone :: s.consumed).Nodup
    rw [hclone]
    exact List.nodup_cons.mpr ⟨hnot, h.nodup⟩
  · intro c hc
    rcases List.mem_cons.mp (show c ∈ data.clone :: s.consumed from hc) with rfl | hc
    · exact ⟨g, hclone, hframe.publishes hpub⟩
    · exact hframe.given h.given c hc
  · intro e he
    rcases List.mem_cons.mp he with rfl | he
    · exact hframe.whole hwhole
    · exact hframe.sound (h.sound e he)

end Inv

end AtomicWaker

end Veloq.Waker
