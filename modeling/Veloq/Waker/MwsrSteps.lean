import Veloq.Waker.MwsrInvariant
set_option autoImplicit false

/-!
# Waker: the steps of a waker with one registrar keep the account of its clones

One lemma for each step.  Most steps of the registrar and of `wake` only look; what the
others do to the lock, to the cached copy and to the clones is said lemma by lemma.
-/

namespace Veloq.Waker

open Veloq.Foundation

/-- The registrar has in its hands, and may do, what it had and might do before. -/
structure RegisterPc.Alike (pc pc' : RegisterPc) : Prop where
  hand : ∀ data own, pc'.hand data own = pc.hand data own
  lockedFrom : pc'.lockedFrom = pc.lockedFrom
  holding : pc'.holding = pc.holding
  caching : pc'.caching = pc.caching
  unmade : pc'.unmade = true → pc.unmade = true
  begun : pc ≠ .idle

namespace MwsrWaker

variable {s s' : MwsrWaker} {pc pc' : RegisterPc} {k : Nat} {wpc wpc' : WakePc}
  {old : Option Nat} {data : Slot} {seen : Word}

namespace Inv

/-! ## Steps of the registrar that only look -/

theorem goOn (h : s.Inv) (hpc : s.pc = pc) (halike : pc.Alike pc')
    (halone : pc'.alone = true → s.vtable.tag = .idle)
    (hstored : pc'.publishing = true → s.data = s.own)
    (hseen : ∀ seen, pc' = .acquire seen → seen.tag = .registered) (hhalf : pc' ≠ .cacheData)
    (hlooked : ∀ seen, pc' = .cachedData seen → seen = s.cachedVtable)
    (hhit : pc' = .quick → s.cachedVtable = some s.waker.vtable ∧ s.cachedData = s.waker.data) :
    (s.goto pc').Inv := by
  subst hpc
  have hheld : ∀ p, (s.goto pc').held p = s.held p := by
    intro p
    cases p with
    | slot => rfl
    | registrar => exact halike.hand _ _
    | wake k => rfl
  have hcached : (s.goto pc').Cached :=
    ⟨fun htag hc => h.control.cached.agrees htag (halike.caching.symm.trans hc),
      fun htag hc => h.control.cached.fresh htag (halike.caching.symm.trans hc),
      fun hp => absurd hp hhalf, hlooked, hhit⟩
  exact ⟨h.ledger.same rfl (Nat.le_refl _) (fun _ _ => rfl) hheld,
    h.control.locked.keep halike.lockedFrom halike.holding halone, hstored,
    fun hu => h.control.unmade (halike.unmade hu), fun _ => h.control.begun halike.begun, hseen,
    h.control.marks, h.control.claims, hcached⟩

theorem loadCachedVtable (h : s.Inv) (hpc : s.pc = .cachedVtable) :
    (s.goto (.cachedData s.cachedVtable)).Inv := by
  refine h.goOn hpc ⟨fun _ _ => rfl, rfl, rfl, rfl, fun _ => rfl, nofun⟩ nofun nofun nofun nofun
    (fun seen hseen => ?_) nofun
  cases hseen
  rfl

theorem loadCachedData {seen : Option Nat} (h : s.Inv) (hpc : s.pc = .cachedData seen) :
    (s.loadCachedData seen).Inv := by
  unfold MwsrWaker.loadCachedData
  have hlooked := h.control.cached.looked seen hpc
  split
  case isTrue heq =>
    refine h.goOn hpc ⟨fun _ _ => rfl, rfl, rfl, rfl, fun _ => rfl, nofun⟩ nofun nofun nofun nofun
      nofun fun _ => ⟨?_, heq.2.symm⟩
    exact hlooked.symm.trans heq.1.symm
  case isFalse =>
    exact h.goOn hpc ⟨fun _ _ => rfl, rfl, rfl, rfl, fun _ => rfl, nofun⟩ nofun nofun nofun nofun
      nofun nofun

theorem quickCheck (h : s.Inv) (hpc : s.pc = .quick) : s.quickCheck.Inv := by
  unfold MwsrWaker.quickCheck
  split
  · exact h.goOn hpc ⟨fun _ _ => rfl, rfl, rfl, rfl, nofun, nofun⟩ nofun nofun nofun nofun
      nofun nofun
  · exact h.goOn hpc ⟨fun _ _ => rfl, rfl, rfl, rfl, fun _ => rfl, nofun⟩ nofun nofun nofun nofun
      nofun nofun

theorem turn (h : s.Inv) (hpc : s.pc = .load ∨ ∃ seen, s.pc = .acquire seen) : (s.turn s.vtable).Inv := by
  have hgo : ∀ pc', pc'.lockedFrom = none → pc'.holding = false → pc'.caching = false →
      (∀ data own, pc'.hand data own = none) → pc'.publishing = false →
      (pc'.alone = true → s.vtable.tag = .idle) →
      (∀ seen, pc' = .acquire seen → seen.tag = .registered) →
      pc' ≠ .cacheData → (∀ seen, pc' ≠ .cachedData seen) → pc' ≠ .quick → (s.goto pc').Inv := by
    intro pc' hlocked hholding hcaching hhand hpublishing halone hseen hhalf hlooked hhit
    have hstored : pc'.publishing = true → s.data = s.own :=
      fun hp => absurd (hpublishing.symm.trans hp) Bool.false_ne_true
    rcases hpc with hpc | ⟨seen, hpc⟩
    · exact h.goOn hpc ⟨hhand, hlocked, hholding, hcaching, fun _ => rfl, nofun⟩ halone hstored
        hseen hhalf (fun seen hs => absurd hs (hlooked seen)) fun hq => absurd hq hhit
    · exact h.goOn hpc ⟨hhand, hlocked, hholding, hcaching, fun _ => rfl, nofun⟩ halone hstored
        hseen hhalf (fun seen hs => absurd hs (hlooked seen)) fun hq => absurd hq hhit
  unfold MwsrWaker.turn
  cases htag : s.vtable.tag with
  | waking => exact hgo .wakeByRef rfl rfl rfl (fun _ _ => rfl) rfl nofun nofun nofun nofun nofun
  | registering => exact hgo .load rfl rfl rfl (fun _ _ => rfl) rfl nofun nofun nofun nofun nofun
  | idle =>
    simp only
    rw [if_pos (h.control.locked.noop htag)]
    exact hgo .directStore rfl rfl rfl (fun _ _ => rfl) rfl (fun _ => htag) nofun nofun nofun nofun
  | registered =>
    refine hgo (.acquire s.vtable) rfl rfl rfl (fun _ _ => rfl) rfl nofun (fun seen hs => ?_) nofun
      nofun nofun
    cases hs
    exact htag

/-! ## The other steps of the registrar -/

theorem register (h : s.Inv) (hpc : s.pc = .idle) (w : RawWaker) : (s.register w).Inv := by
  have hargs : ∀ g, g ≤ s.call → (s.register w).args g = s.args g := fun g hg =>
    Function.update_of_ne (Nat.ne_of_lt (Nat.lt_succ_of_le hg)) ..
  have hheld : ∀ p, (s.register w).held p = s.held p := by
    intro p
    cases p with
    | slot => rfl
    | registrar =>
      unfold held
      rw [hpc]
      rfl
    | wake k => rfl
  have hlocked := h.control.locked
  have hcached := h.control.cached
  rw [hpc] at hlocked
  refine ⟨h.ledger.same rfl (Nat.le_succ _) hargs hheld, ⟨hlocked.keep rfl rfl nofun, nofun,
    fun _ hmem => ?_, fun _ => Nat.succ_pos _, nofun, h.control.marks, h.control.claims,
    fun htag _ => hcached.agrees htag (by rw [hpc]; rfl), nofun, nofun, nofun, nofun⟩⟩
  exact Nat.not_succ_le_self _ (h.ledger.sound _ hmem).2

theorem wakeByRef (h : s.Inv) (hpc : s.pc = .wakeByRef) : s.wakeByRef.Inv := by
  have hheld : ∀ p, s.wakeByRef.held p = s.held p := by
    intro p
    cases p with
    | slot => rfl
    | registrar =>
      unfold held
      rw [hpc]
      rfl
    | wake k => rfl
  have hlocked := h.control.locked
  rw [hpc] at hlocked
  have hbegun := h.control.begun (by rw [hpc]; exact RegisterPc.noConfusion)
  exact ⟨h.ledger.byRef hbegun rfl rfl rfl hheld, ⟨hlocked.keep rfl rfl nofun, nofun, nofun, nofun,
    nofun, h.control.marks, h.control.claims,
    fun htag _ => h.control.cached.agrees htag (by rw [hpc]; rfl), nofun, nofun, nofun, nofun⟩⟩

/-- The registrar stores the data of its clone, where no waker is registered. -/
theorem storeData (h : s.Inv) (hpc : s.pc = pc)
    (hfrom : pc = .directStore ∧ pc' = .directPublish ∨
      ∃ old, pc = .store old ∧ pc' = .publish old) :
    (s.storeData pc').Inv := by
  subst hpc
  have hlocked := h.control.locked
  have hshape : s.pc.hand s.data (some s.waker.vtable, s.own) = none ∧
      pc'.hand s.own (some s.waker.vtable, s.own) = some (some s.waker.vtable, s.own) ∧
      s.pc.unmade = true ∧ s.pc ≠ .idle ∧ pc'.lockedFrom = s.pc.lockedFrom ∧
      pc'.holding = s.pc.holding ∧ (pc'.alone = true → s.pc.alone = true) ∧ pc'.unmade = false ∧
      pc'.caching = false ∧ (∀ seen, pc' ≠ .acquire seen) ∧ pc' ≠ .cacheData ∧
      (∀ seen, pc' ≠ .cachedData seen) ∧ pc' ≠ .quick ∧
      (s.pc.holding = true ∨ s.pc.alone = true) := by
    rcases hfrom with ⟨hpc, rfl⟩ | ⟨old, hpc, rfl⟩
    · rw [hpc]
      exact ⟨rfl, rfl, rfl, nofun, rfl, rfl, fun _ => rfl, rfl, rfl, nofun, nofun, nofun, nofun,
        .inr rfl⟩
    · rw [hpc]
      exact ⟨rfl, rfl, rfl, nofun, rfl, rfl, nofun, rfl, rfl, nofun, nofun, nofun, nofun, .inl rfl⟩
  obtain ⟨hhand, hhand', hunmade, hidle, hfrom', hholding, halone, hunmade', hcaching, hacquire,
    hhalf, hlooked, hhit, hheld⟩ := hshape
  have htag : s.vtable.tag ≠ .registered := by
    intro htag
    rcases hheld with hheld | hheld
    · exact Bool.false_ne_true ((hlocked.free (.inr htag)).symm.trans hheld)
    · exact Tag.noConfusion (htag.symm.trans (hlocked.alone hheld))
  have hbusy : ∀ k, (s.wakes k).busy = false := by
    refine hlocked.not_busy (hheld.symm.imp (fun ha => ?_) id)
    rw [hlocked.alone ha]
    exact Tag.noConfusion
  have hothers : ∀ p, p ≠ .registrar → (s.storeData pc').held p = s.held p := by
    intro p hp
    cases p with
    | slot => exact (if_neg htag).trans (if_neg htag).symm
    | registrar => exact absurd rfl hp
    | wake k => exact WakePc.hand_data (hbusy k) _ _
  refine ⟨h.ledger.make (h.control.begun hidle) (h.control.unmade hunmade) rfl rfl rfl hhand hhand'
    hothers, ⟨hlocked.keep hfrom' hholding fun ha => hlocked.alone (halone ha), fun _ => rfl,
    fun hu => absurd (hunmade'.symm.trans hu) Bool.false_ne_true, fun _ => h.control.begun hidle,
    fun seen hs => absurd hs (hacquire seen), h.control.marks, h.control.claims,
    fun ht => absurd ht htag, fun ht => absurd ht htag, fun hp => absurd hp hhalf,
    fun seen hs => absurd hs (hlooked seen), fun hq => absurd hq hhit⟩⟩

/-- The clone of the registrar is registered. -/
theorem published (h : s.Inv) (hpc : s.pc = pc)
    (hfrom : pc = .directPublish ∨ (∃ old, pc = .publish old) ∧ s.vtable.tag = .registering) :
    s.directPublish.Inv := by
  subst hpc
  have hlocked := h.control.locked
  have hshape : s.pc.hand s.data (some s.waker.vtable, s.own) = some (some s.waker.vtable, s.own) ∧
      s.pc.publishing = true ∧ s.pc ≠ .idle ∧ s.vtable.tag ≠ .registered ∧
      s.vtable.tag ≠ .waking := by
    rcases hfrom with hpc | ⟨⟨old, hpc⟩, htag⟩
    · have hidle : s.vtable.tag = .idle := hlocked.alone (by rw [hpc]; rfl)
      rw [hpc, hidle]
      exact ⟨rfl, rfl, nofun, nofun, nofun⟩
    · rw [hpc, htag]
      exact ⟨rfl, rfl, nofun, nofun, nofun⟩
  obtain ⟨hhand, hpublishing, hidle, htag, hwaking⟩ := hshape
  have hstored := h.control.stored hpublishing
  have hothers : ∀ p, p ≠ .registrar → p ≠ .slot → s.directPublish.held p = s.held p := by
    intro p hp hp'
    cases p with
    | slot => exact absurd rfl hp'
    | registrar => exact absurd rfl hp
    | wake k => rfl
  have hregistrar : s.held .registrar = some (some s.waker.vtable, s.own) := hhand
  have hempty : s.held .slot = none := if_neg htag
  have hslot : s.directPublish.held .slot = some (some s.waker.vtable, s.own) :=
    congrArg (fun data => some (some s.waker.vtable, data)) hstored
  refine ⟨h.ledger.move rfl rfl rfl hregistrar rfl hempty hslot hothers,
    ⟨hlocked.publish (.inl hwaking) (.inr ⟨rfl, rfl⟩) rfl, nofun, nofun,
    fun _ => h.control.begun hidle, nofun, h.control.marks, h.control.claims, fun _ => nofun,
    fun _ _ => ⟨rfl, ?_⟩, nofun, nofun, nofun⟩⟩
  exact congrArg Slot.ptr hstored

theorem directPublish (h : s.Inv) (hpc : s.pc = .directPublish) : s.directPublish.Inv :=
  h.published hpc (.inl rfl)

theorem tryPublish (h : s.Inv) (hpc : s.pc = .publish old) : (s.tryPublish old).Inv := by
  unfold MwsrWaker.tryPublish
  split
  case isTrue heq => exact h.published hpc (.inr ⟨⟨old, rfl⟩, by rw [heq]⟩)
  case isFalse hne =>
    have hlocked := h.control.locked
    rw [hpc] at hlocked
    have htag := (hlocked.tag_of_locked rfl).resolve_left hne
    have hnot : s.vtable.tag ≠ .registered := by
      rw [htag]
      exact Tag.noConfusion
    have hheld : ∀ p, (s.goto .resetVtable).held p = s.held p := by
      intro p
      cases p with
      | slot => rfl
      | registrar =>
        unfold held
        rw [hpc]
        rfl
      | wake k => rfl
    exact ⟨h.ledger.same rfl (Nat.le_refl _) (fun _ _ => rfl) hheld,
      ⟨hlocked.giveUp htag rfl rfl rfl, nofun, nofun,
      fun _ => h.control.begun (by rw [hpc]; exact RegisterPc.noConfusion), nofun, h.control.marks,
      h.control.claims, fun ht => absurd ht hnot, fun ht => absurd ht hnot, nofun, nofun, nofun⟩⟩

theorem tryAcquire (h : s.Inv) (hpc : s.pc = .acquire seen) : (s.tryAcquire seen).Inv := by
  unfold MwsrWaker.tryAcquire
  split
  case isTrue heq =>
    have htag : s.vtable.tag = .registered := by
      rw [heq]
      exact h.control.seen seen hpc
    subst heq
    have hslot : s.held .slot = some (s.vtable.ptr, s.data) := if_pos htag
    have hregistrar : s.held .registrar = none := by
      unfold held
      rw [hpc]
      rfl
    have hothers : ∀ p, p ≠ .slot → p ≠ .registrar →
        MwsrWaker.held { s.goto (.replace s.vtable.ptr) with
          vtable := { s.vtable with tag := .registering } } p = s.held p := by
      intro p hp hp'
      cases p with
      | slot => exact absurd rfl hp
      | registrar => exact absurd rfl hp'
      | wake k => rfl
    exact ⟨h.ledger.move rfl rfl rfl hslot rfl hregistrar rfl hothers,
      ⟨h.control.locked.acquire htag rfl rfl, nofun,
      fun _ => h.control.unmade (by rw [hpc]; rfl),
      fun _ => h.control.begun (by rw [hpc]; exact RegisterPc.noConfusion), nofun, h.control.marks,
      h.control.claims, nofun, nofun, nofun, nofun, nofun⟩⟩
  case isFalse => exact h.turn (.inr ⟨seen, hpc⟩)

theorem dropOld (h : s.Inv) (hpc : s.pc = .replace old) : (s.dropOld old).Inv := by
  have hhand : s.held .registrar = some (old, s.data) := by
    unfold held
    rw [hpc]
    rfl
  have hsome : old ≠ none := by
    obtain ⟨g, -, -, -, hvtable, -⟩ := h.ledger.whole _ _ _ hhand
    rw [hvtable]
    exact Option.some_ne_none _
  have hlocked := h.control.locked
  rw [hpc] at hlocked
  have htag : s.vtable.tag ≠ .registered := fun htag =>
    Bool.false_ne_true (hlocked.free (.inr htag)).symm
  unfold MwsrWaker.dropOld
  rw [if_neg hsome]
  have hothers : ∀ p, p ≠ .registrar → MwsrWaker.held { s.goto (.store old) with
      log := .drop old s.data :: s.log } p = s.held p := by
    intro p hp
    cases p with
    | slot => rfl
    | registrar => exact absurd rfl hp
    | wake k => rfl
  refine ⟨h.ledger.spend (.inr rfl) rfl rfl rfl hhand rfl hothers,
    ⟨hlocked.keep rfl rfl nofun, nofun, fun _ hmem => ?_,
    fun _ => h.control.begun (by rw [hpc]; exact RegisterPc.noConfusion), nofun, h.control.marks,
    h.control.claims, fun ht => absurd ht htag, fun ht => absurd ht htag, nofun, nofun, nofun⟩⟩
  rcases List.mem_cons.mp hmem with heq | hmem
  · exact VtableCall.noConfusion heq
  · exact h.control.unmade (by rw [hpc]; rfl) hmem

/-! ## The cached copy, and giving up -/

theorem storeCachedVtable (h : s.Inv) (hpc : s.pc = .cacheVtable) : s.storeCachedVtable.Inv := by
  have hheld : ∀ p, s.storeCachedVtable.held p = s.held p := by
    intro p
    cases p with
    | slot => rfl
    | registrar =>
      unfold held
      rw [hpc]
      rfl
    | wake k => rfl
  have hlocked := h.control.locked
  rw [hpc] at hlocked
  exact ⟨h.ledger.same rfl (Nat.le_refl _) (fun _ _ => rfl) hheld,
    ⟨hlocked.keep rfl rfl nofun, nofun, nofun,
    fun _ => h.control.begun (by rw [hpc]; exact RegisterPc.noConfusion), nofun, h.control.marks,
    h.control.claims, fun _ => nofun, fun ht _ => h.control.cached.fresh ht (by rw [hpc]; rfl),
    fun _ => rfl, nofun, nofun⟩⟩

theorem storeCachedData (h : s.Inv) (hpc : s.pc = .cacheData) : s.storeCachedData.Inv := by
  have hheld : ∀ p, s.storeCachedData.held p = s.held p := by
    intro p
    cases p with
    | slot => rfl
    | registrar =>
      unfold held
      rw [hpc]
      rfl
    | wake k => rfl
  have hlocked := h.control.locked
  rw [hpc] at hlocked
  refine ⟨h.ledger.same rfl (Nat.le_refl _) (fun _ _ => rfl) hheld,
    ⟨hlocked.keep rfl rfl nofun, nofun, nofun, nofun, nofun, h.control.marks, h.control.claims,
    fun ht _ => ?_, nofun, nofun, nofun, nofun⟩⟩
  obtain ⟨hvtable, hdata⟩ := h.control.cached.fresh ht (by rw [hpc]; rfl)
  exact ⟨(h.control.cached.half hpc).trans hvtable.symm, hdata.symm⟩

theorem resetVtable (h : s.Inv) (hpc : s.pc = .resetVtable) : s.resetVtable.Inv := by
  have hlocked := h.control.locked
  rw [hpc] at hlocked
  have htag : s.vtable.tag ≠ .registered := fun htag =>
    Bool.false_ne_true (hlocked.free (.inr htag)).symm
  have hheld : ∀ p, s.resetVtable.held p = s.held p := by
    intro p
    cases p with
    | slot => exact (if_neg htag).symm
    | registrar =>
      unfold held
      rw [hpc]
      rfl
    | wake k => rfl
  exact ⟨h.ledger.same rfl (Nat.le_refl _) (fun _ _ => rfl) hheld,
    ⟨hlocked.publish (.inr rfl) (.inl rfl) rfl, nofun, nofun,
    fun _ => h.control.begun (by rw [hpc]; exact RegisterPc.noConfusion), nofun, h.control.marks,
    h.control.claims, nofun, nofun, nofun, nofun, nofun⟩⟩

/-- The registrar tidies up an empty slot. -/
theorem tidy (h : s.Inv) (hpc : s.pc = pc) (halone : pc.alone = true) (halone' : pc'.alone = true)
    (hhand : ∀ data data' own, pc.hand data own = pc'.hand data' own)
    (hpublishing : pc'.publishing = false) (hunmade : pc'.unmade = false) (data : Slot)
    (cachedVtable : Option Nat) (cachedData : Nat) :
    Inv { s.goto pc' with
      data := data
      cachedVtable := cachedVtable
      cachedData := cachedData } := by
  subst hpc
  have hlocked := h.control.locked
  have htag := hlocked.alone halone
  have hshape : ∀ pc : RegisterPc, pc.alone = true → pc.lockedFrom = none ∧ pc.holding = false ∧
      pc ≠ .idle ∧ (∀ seen, pc ≠ .acquire seen) ∧ pc ≠ .cacheData ∧
      (∀ seen, pc ≠ .cachedData seen) ∧ pc ≠ .quick := by
    intro pc hpc
    cases pc <;> first
      | exact absurd hpc.symm Bool.false_ne_true.symm
      | exact ⟨rfl, rfl, nofun, nofun, nofun, nofun, nofun⟩
  obtain ⟨hfrom, hholding, hidle, -⟩ := hshape _ halone
  obtain ⟨hfrom', hholding', -, hacquire, hhalf, hlooked, hhit⟩ := hshape _ halone'
  have hnot : s.vtable.tag ≠ .registered := by
    rw [htag]
    exact Tag.noConfusion
  have hbusy := hlocked.not_busy (.inl (by rw [htag]; exact Tag.noConfusion))
  refine ⟨h.ledger.same rfl (Nat.le_refl _) (fun _ _ => rfl) fun p => ?_,
    ⟨hlocked.keep (hfrom'.trans hfrom.symm) (hholding'.trans hholding.symm) fun _ => htag,
    fun hp => absurd (hpublishing.symm.trans hp) Bool.false_ne_true,
    fun hu => absurd (hunmade.symm.trans hu) Bool.false_ne_true, fun _ => h.control.begun hidle,
    fun seen hs => absurd hs (hacquire seen), h.control.marks, h.control.claims,
    fun ht => absurd ht hnot, fun ht => absurd ht hnot, fun hp => absurd hp hhalf,
    fun seen hs => absurd hs (hlooked seen), fun hq => absurd hq hhit⟩⟩
  cases p with
  | slot => exact (if_neg hnot).trans (if_neg hnot).symm
  | registrar => exact (hhand _ _ _).symm
  | wake k => exact WakePc.hand_data (hbusy k) _ _

theorem resetData (h : s.Inv) (hpc : s.pc = .resetData) : s.resetData.Inv :=
  h.tidy hpc rfl rfl (fun _ _ _ => rfl) rfl rfl .null s.cachedVtable s.cachedData

theorem clearCachedVtable (h : s.Inv) (hpc : s.pc = .clearVtable) : s.clearCachedVtable.Inv :=
  h.tidy hpc rfl rfl (fun _ _ _ => rfl) rfl rfl s.data none s.cachedData

theorem clearCachedData (h : s.Inv) (hpc : s.pc = .clearData) : s.clearCachedData.Inv :=
  h.tidy hpc rfl rfl (fun _ _ _ => rfl) rfl rfl s.data s.cachedVtable 0

theorem wakeOwn (h : s.Inv) (hpc : s.pc = .wakeOwn) : s.wakeOwn.Inv := by
  have hhand : s.held .registrar = some (some s.waker.vtable, s.own) := by
    unfold held
    rw [hpc]
    rfl
  have hothers : ∀ p, p ≠ .registrar → s.wakeOwn.held p = s.held p := by
    intro p hp
    cases p with
    | slot => rfl
    | registrar => exact absurd rfl hp
    | wake k => rfl
  have hlocked := h.control.locked
  rw [hpc] at hlocked
  have htag := hlocked.alone rfl
  have hnot : s.vtable.tag ≠ .registered := by
    rw [htag]
    exact Tag.noConfusion
  exact ⟨h.ledger.spend (.inl rfl) rfl rfl rfl hhand rfl hothers,
    ⟨hlocked.keep rfl rfl nofun, nofun, nofun, nofun, nofun, h.control.marks, h.control.claims,
    fun ht => absurd ht hnot, fun ht => absurd ht hnot, nofun, nofun, nofun⟩⟩

/-! ## The steps of `wake` -/

theorem wakes_self (wpc : WakePc) : (s.wakeTo k wpc).wakes k = wpc := Function.update_self ..

theorem wakes_of_ne {l : Nat} (hl : l ≠ k) (wpc : WakePc) :
    (s.wakeTo k wpc).wakes l = s.wakes l := Function.update_of_ne hl ..

/-- What a call has seen fits what it is going to do. -/
theorem seen_of_ne (h : s.Inv) (k : Nat) (wpc' : WakePc)
    (hmark : ∀ seen, wpc' = .mark seen → seen.tag = .registering)
    (hclaim : ∀ seen, wpc' = .claim seen → seen.tag = .registered) :
    (∀ l seen, (s.wakeTo k wpc').wakes l = .mark seen → seen.tag = .registering) ∧
      ∀ l seen, (s.wakeTo k wpc').wakes l = .claim seen → seen.tag = .registered := by
  constructor
  · intro l seen hl
    rcases Classical.em (l = k) with rfl | hne
    · rw [wakes_self] at hl
      exact hmark seen hl
    · rw [wakes_of_ne hne] at hl
      exact h.control.marks l seen hl
  · intro l seen hl
    rcases Classical.em (l = k) with rfl | hne
    · rw [wakes_self] at hl
      exact hclaim seen hl
    · rw [wakes_of_ne hne] at hl
      exact h.control.claims l seen hl

/-- A `wake` call goes on with what it has. -/
theorem wakeOn (h : s.Inv) (hpc : s.wakes k = wpc) (hbusy : wpc'.busy = wpc.busy)
    (hhand : wpc'.hand s.data = wpc.hand s.data)
    (hmark : ∀ seen, wpc' = .mark seen → seen.tag = .registering)
    (hclaim : ∀ seen, wpc' = .claim seen → seen.tag = .registered) :
    (s.wakeTo k wpc').Inv := by
  have hheld : ∀ p, (s.wakeTo k wpc').held p = s.held p := by
    intro p
    cases p with
    | slot => rfl
    | registrar => rfl
    | wake l =>
      show ((s.wakeTo k wpc').wakes l).hand s.data = (s.wakes l).hand s.data
      rcases Classical.em (l = k) with rfl | hne
      · rw [wakes_self, hpc]
        exact hhand
      · rw [wakes_of_ne hne]
  obtain ⟨hmarks, hclaims⟩ := h.seen_of_ne k wpc' hmark hclaim
  have hlocked : MwsrLocked s.vtable s.pc (s.wakeTo k wpc').wakes := by
    refine h.control.locked.wakeKeep (fun l hl => wakes_of_ne hl _) ?_
    rw [wakes_self, hpc]
    exact hbusy
  exact ⟨h.ledger.same rfl (Nat.le_refl _) (fun _ _ => rfl) hheld,
    ⟨hlocked, h.control.stored, h.control.unmade, h.control.begun, h.control.seen, hmarks, hclaims,
    h.control.cached.agrees, h.control.cached.fresh, h.control.cached.half,
    h.control.cached.looked, h.control.cached.hit⟩⟩

theorem takeTurn (h : s.Inv) (hpc : s.wakes k = wpc) (hbusy : wpc.busy = false)
    (hhand : wpc.hand s.data = none) : (s.takeTurn k s.vtable).Inv := by
  unfold MwsrWaker.takeTurn
  cases htag : s.vtable.tag with
  | registering =>
    refine h.wakeOn hpc hbusy.symm hhand.symm (fun seen hs => ?_) nofun
    cases hs
    exact htag
  | registered =>
    refine h.wakeOn hpc hbusy.symm hhand.symm nofun fun seen hs => ?_
    cases hs
    exact htag
  | idle => exact h.wakeOn hpc hbusy.symm hhand.symm nofun nofun
  | waking => exact h.wakeOn hpc hbusy.symm hhand.symm nofun nofun

theorem mark (h : s.Inv) (hpc : s.wakes k = .mark seen) : (s.mark k seen).Inv := by
  unfold MwsrWaker.mark
  split
  case isTrue heq =>
    have htag : s.vtable.tag = .registering := by
      rw [heq]
      exact h.control.marks k seen hpc
    subst heq
    have hnot : s.vtable.tag ≠ .registered := by
      rw [htag]
      exact Tag.noConfusion
    have hgone : (s.wakeTo k .gone).Inv := h.wakeOn hpc rfl rfl nofun nofun
    have hheld : ∀ p, MwsrWaker.held { s.wakeTo k .gone with
        vtable := { s.vtable with tag := .waking } } p = (s.wakeTo k .gone).held p := by
      intro p
      cases p with
      | slot => exact (if_neg hnot).symm
      | registrar => rfl
      | wake l => rfl
    exact ⟨hgone.ledger.same rfl (Nat.le_refl _) (fun _ _ => rfl) hheld,
      ⟨hgone.control.locked.mark htag, hgone.control.stored, hgone.control.unmade,
      hgone.control.begun, hgone.control.seen, hgone.control.marks, hgone.control.claims, nofun,
      nofun, hgone.control.cached.half, hgone.control.cached.looked, hgone.control.cached.hit⟩⟩
  case isFalse => exact h.takeTurn hpc rfl rfl

theorem claim (h : s.Inv) (hpc : s.wakes k = .claim seen) : (s.claim k seen).Inv := by
  unfold MwsrWaker.claim
  split
  case isTrue heq =>
    have htag : s.vtable.tag = .registered := by
      rw [heq]
      exact h.control.claims k seen hpc
    subst heq
    have hslot : s.held .slot = some (s.vtable.ptr, s.data) := if_pos htag
    have hnone : s.held (.wake k) = none := by
      show (s.wakes k).hand s.data = none
      rw [hpc]
      rfl
    have hwake : MwsrWaker.held { s.wakeTo k (.data s.vtable.ptr) with
        vtable := { s.vtable with tag := .waking } } (.wake k) = some (s.vtable.ptr, s.data) := by
      show ((s.wakeTo k (.data s.vtable.ptr)).wakes k).hand s.data = _
      rw [wakes_self]
      rfl
    have hothers : ∀ p, p ≠ .slot → p ≠ .wake k →
        MwsrWaker.held { s.wakeTo k (.data s.vtable.ptr) with
          vtable := { s.vtable with tag := .waking } } p = s.held p := by
      intro p hp hp'
      cases p with
      | slot => exact absurd rfl hp
      | registrar => rfl
      | wake l =>
        show ((s.wakeTo k (.data s.vtable.ptr)).wakes l).hand s.data = (s.wakes l).hand s.data
        rw [wakes_of_ne fun heq => hp' (by rw [heq])]
    have hlocked : MwsrLocked { s.vtable with tag := .waking } s.pc
        (s.wakeTo k (.data s.vtable.ptr)).wakes := by
      refine h.control.locked.claim htag (fun l hl => wakes_of_ne hl _) ?_
      rw [wakes_self]
      rfl
    obtain ⟨hmarks, hclaims⟩ := h.seen_of_ne k (.data s.vtable.ptr) nofun nofun
    exact ⟨h.ledger.move rfl rfl rfl hslot rfl hnone hwake hothers,
      ⟨hlocked, h.control.stored, h.control.unmade, h.control.begun, h.control.seen, hmarks,
      hclaims, nofun, nofun, h.control.cached.half, h.control.cached.looked,
      h.control.cached.hit⟩⟩
  case isFalse => exact h.takeTurn hpc rfl rfl

theorem takeData (h : s.Inv) (hpc : s.wakes k = .data old) :
    (s.wakeTo k (.clear old s.data)).Inv :=
  h.wakeOn hpc rfl rfl nofun nofun

theorem takeClear (h : s.Inv) (hpc : s.wakes k = .clear old data) : (s.takeClear k old data).Inv := by
  have hnext : (s.wakeTo k (.reset old data)).Inv := h.wakeOn hpc rfl rfl nofun nofun
  have hk : ((s.wakeTo k (.reset old data)).wakes k).busy = true := by
    rw [wakes_self]
    rfl
  obtain ⟨htag, hholding⟩ := hnext.control.locked.busy k hk
  have hnot : (s.wakeTo k (.reset old data)).vtable.tag ≠ .registered := by
    rw [htag]
    exact Tag.noConfusion
  have hheld : ∀ p, (s.takeClear k old data).held p = (s.wakeTo k (.reset old data)).held p := by
    intro p
    cases p with
    | slot => exact (if_neg hnot).trans (if_neg hnot).symm
    | registrar => exact RegisterPc.hand_data hholding _ _ _
    | wake l =>
      rcases Classical.em (l = k) with rfl | hne
      · show ((s.wakeTo l (.reset old data)).wakes l).hand .null =
          ((s.wakeTo l (.reset old data)).wakes l).hand s.data
        rw [wakes_self]
        rfl
      · refine WakePc.hand_data ?_ _ _
        rw [Bool.eq_false_iff]
        exact fun hl => hne (hnext.control.locked.apart l k hl hk)
  have hpublishing : (s.takeClear k old data).pc.publishing = true →
      (s.takeClear k old data).data = (s.takeClear k old data).own := by
    intro hp
    cases hpc' : s.pc <;> rw [show (s.takeClear k old data).pc = _ from hpc'] at hp
    case directPublish =>
      have hidle := hnext.control.locked.alone (by
        rw [show (s.wakeTo k (.reset old data)).pc = _ from hpc']
        rfl)
      exact Tag.noConfusion (hidle.symm.trans htag)
    case publish old' =>
      rw [show (s.wakeTo k (.reset old data)).pc = _ from hpc'] at hholding
      exact absurd hholding Bool.false_ne_true.symm
    all_goals exact absurd hp.symm Bool.false_ne_true.symm
  exact ⟨hnext.ledger.same rfl (Nat.le_refl _) (fun _ _ => rfl) hheld,
    ⟨hnext.control.locked, hpublishing, hnext.control.unmade, hnext.control.begun,
    hnext.control.seen, hnext.control.marks, hnext.control.claims, fun ht => absurd ht hnot,
    fun ht => absurd ht hnot, hnext.control.cached.half, hnext.control.cached.looked,
    hnext.control.cached.hit⟩⟩

theorem takeReset (h : s.Inv) (hpc : s.wakes k = .reset old data) : (s.takeReset k old data).Inv := by
  have hk : (s.wakes k).busy = true := by
    rw [hpc]
    rfl
  obtain ⟨htag, -⟩ := h.control.locked.busy k hk
  have hnot : s.vtable.tag ≠ .registered := by
    rw [htag]
    exact Tag.noConfusion
  have hheld : ∀ p, (s.takeReset k old data).held p = s.held p := by
    intro p
    cases p with
    | slot => exact (if_neg hnot).symm
    | registrar => rfl
    | wake l =>
      show ((s.wakeTo k (.wake old data)).wakes l).hand s.data = (s.wakes l).hand s.data
      rcases Classical.em (l = k) with rfl | hne
      · rw [wakes_self, hpc]
        rfl
      · rw [wakes_of_ne hne]
  have hlocked : MwsrLocked .noop s.pc (s.wakeTo k (.wake old data)).wakes := by
    refine h.control.locked.release hk (fun l hl => wakes_of_ne hl _) ?_
    rw [wakes_self]
    rfl
  obtain ⟨hmarks, hclaims⟩ := h.seen_of_ne k (.wake old data) nofun nofun
  exact ⟨h.ledger.same rfl (Nat.le_refl _) (fun _ _ => rfl) hheld,
    ⟨hlocked, h.control.stored, h.control.unmade, h.control.begun, h.control.seen, hmarks, hclaims,
    nofun, nofun, h.control.cached.half, h.control.cached.looked, h.control.cached.hit⟩⟩

theorem wakeTaken (h : s.Inv) (hpc : s.wakes k = .wake old data) :
    (s.wakeTaken k old data).Inv := by
  have hhand : s.held (.wake k) = some (old, data) := by
    show (s.wakes k).hand s.data = some (old, data)
    rw [hpc]
    rfl
  have hhand' : (s.wakeTaken k old data).held (.wake k) = none := by
    show ((s.wakeTo k .gone).wakes k).hand s.data = none
    rw [wakes_self]
    rfl
  have hothers : ∀ p, p ≠ .wake k → (s.wakeTaken k old data).held p = s.held p := by
    intro p hp
    cases p with
    | slot => rfl
    | registrar => rfl
    | wake l =>
      show ((s.wakeTo k .gone).wakes l).hand s.data = (s.wakes l).hand s.data
      rw [wakes_of_ne fun heq => hp (by rw [heq])]
  have hlocked : MwsrLocked s.vtable s.pc (s.wakeTo k .gone).wakes := by
    refine h.control.locked.wakeKeep (fun l hl => wakes_of_ne hl _) ?_
    rw [wakes_self, hpc]
    rfl
  obtain ⟨hmarks, hclaims⟩ := h.seen_of_ne k .gone nofun nofun
  refine ⟨h.ledger.spend (.inl rfl) rfl rfl rfl hhand hhand' hothers,
    ⟨hlocked, h.control.stored, fun hu hmem => ?_, h.control.begun, h.control.seen, hmarks, hclaims,
    h.control.cached.agrees, h.control.cached.fresh, h.control.cached.half,
    h.control.cached.looked, h.control.cached.hit⟩⟩
  rcases List.mem_cons.mp hmem with heq | hmem
  · exact VtableCall.noConfusion heq
  · exact h.control.unmade hu hmem

/-! ## Every step, and the start -/

theorem advance (h : s.Inv) (hs : s.advance = some s') : s'.Inv := by
  unfold MwsrWaker.advance at hs
  cases hpc : s.pc <;> rw [hpc] at hs <;> cases hs
  case cachedVtable => exact h.loadCachedVtable hpc
  case cachedData => exact h.loadCachedData hpc
  case quick => exact h.quickCheck hpc
  case load => exact h.turn (.inl hpc)
  case directStore => exact h.storeData hpc (.inl ⟨rfl, rfl⟩)
  case directPublish => exact h.directPublish hpc
  case acquire => exact h.tryAcquire hpc
  case replace => exact h.dropOld hpc
  case store => exact h.storeData hpc (.inr ⟨_, rfl, rfl⟩)
  case publish => exact h.tryPublish hpc
  case cacheVtable => exact h.storeCachedVtable hpc
  case cacheData => exact h.storeCachedData hpc
  case resetVtable => exact h.resetVtable hpc
  case resetData => exact h.resetData hpc
  case clearVtable => exact h.clearCachedVtable hpc
  case clearData => exact h.clearCachedData hpc
  case wakeOwn => exact h.wakeOwn hpc
  case wakeByRef => exact h.wakeByRef hpc

theorem wakeStep (h : s.Inv) (hs : s.wakeStep k = some s') : s'.Inv := by
  unfold MwsrWaker.wakeStep at hs
  cases hpc : s.wakes k <;> rw [hpc] at hs <;> cases hs
  case load => exact h.takeTurn hpc rfl rfl
  case mark => exact h.mark hpc
  case claim => exact h.claim hpc
  case data => exact h.takeData hpc
  case clear => exact h.takeClear hpc
  case reset => exact h.takeReset hpc
  case wake => exact h.wakeTaken hpc

/-- Every step keeps the invariant. -/
theorem step (h : s.Inv) {e : MwsrAction} (hs : MwsrStep s e s') : s'.Inv := by
  cases e with
  | register w =>
    obtain ⟨hpc, heq⟩ := Option.ite_none_right_eq_some.mp hs
    cases heq
    exact h.register hpc w
  | registrar => exact h.advance hs
  | wake k =>
    obtain ⟨hpc, heq⟩ := Option.ite_none_right_eq_some.mp hs
    cases heq
    exact h.wakeOn hpc rfl rfl nofun nofun
  | waker k => exact h.wakeStep hs

theorem initial : MwsrWaker.new.Inv := by
  have hheld : ∀ p, MwsrWaker.new.held p = none := by
    intro p
    cases p <;> rfl
  have hcloneAt : ∀ p, MwsrWaker.new.cloneAt p = none := by
    intro p
    rw [cloneAt, hheld]
    rfl
  refine ⟨⟨⟨fun p q g hp => ?place, fun p g hp => ?id, ?_, List.nodup_nil, ?_⟩,
    fun p v d hp => ?whole, ?_⟩,
    ⟨⟨fun _ => rfl, fun _ => rfl, ?_, ?_, ?_, ?_, ?_⟩, ?_, ?_, ?_, ?_, ?_, ?_, ?_, ?_, ?_, ?_, ?_⟩⟩
  case place => exact absurd ((hcloneAt p).symm.trans hp).symm (Option.some_ne_none _)
  case id => exact absurd ((hcloneAt p).symm.trans hp).symm (Option.some_ne_none _)
  case whole => exact absurd ((hheld p).symm.trans hp).symm (Option.some_ne_none _)
  -- nothing has happened: no call is running and no clone has been made
  all_goals
    intros
    contradiction

end Inv

end MwsrWaker

end Veloq.Waker
