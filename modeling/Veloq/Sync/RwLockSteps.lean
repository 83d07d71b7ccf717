import Veloq.Sync.RwLockInvariant
set_option autoImplicit false

/-!
# Sync: the steps of the reader-writer lock

Every step keeps the invariant, as long as no future joins the queue, or is dropped after
it was unlinked, at a moment when nobody is left to come back to the queue.
-/

namespace Veloq.Sync

open Veloq.Foundation

namespace RwLock

variable {s s' : RwLock} {f g : Nat} {t : Task} {w : Word} {pc : Pc}

/-! ## Steps that touch only their own task and the word -/

theorem Frame.own (s : RwLock) (f : Nat) (t : Task) (w : Word) :
    Frame s { s.setTask f t with state := w } f :=
  ⟨fun _ hne => Or.inl (setTask_of_ne hne), fun _ _ => Iff.rfl, fun _ _ h => h,
    fun _ _ h hnot => absurd h hnot⟩

theorem own_self : ({ s.setTask f t with state := w } : RwLock).tasks f = t := setTask_self

/-- A task goes on watching if its flags stay. -/
theorem Watches.keep (h : s.Watches f) (hreleasing : (s.tasks f).pc.releasing = false)
    (hacquiring : (s.tasks f).pc.acquiring = false) (hqueued : t.queued = (s.tasks f).queued)
    (hwoken : t.woken = (s.tasks f).woken) : (s.setTask f t).Watches f := by
  unfold Watches Awake at h ⊢
  rw [setTask_self, hqueued, hwoken]
  rw [hreleasing, hacquiring] at h
  rcases h with hf | hf | hf
  · exact absurd hf (by simp)
  · exact absurd hf (by simp)
  · exact Or.inr (Or.inr hf)

namespace Inv

theorem act (h : s.Inv) (w : Word) (hinside : t.pc.inside = (s.tasks f).pc.inside)
    (hflags : t.Flags) (halarmed : t.Alarmed (f ∈ s.waiters))
    (hlinked : f ∈ s.waiters → t.queued = true)
    (hholders : Holders { s.setTask f t with state := w })
    (hmarked : t.pc = .push ∨ s.Marked → Marked { s.setTask f t with state := w })
    (hcovered : s.Covered → Covered { s.setTask f t with state := w }) :
    Inv { s.setTask f t with state := w } := by
  refine h.of_frame (Frame.own s f t w) ?_ h.nodup ?_ ?_ ?_ hholders ?_ ?_
  · rw [own_self, hinside]
    exact h.lock f
  · rw [own_self]
    exact hlinked
  · rw [own_self]
    exact hflags
  · rw [own_self]
    exact halarmed
  · rw [own_self]
    rintro (hpush | ⟨-, -, -, hs⟩)
    · exact hmarked (Or.inl hpush)
    · exact hmarked (Or.inr hs)
  · exact fun hne => hcovered (h.covered hne)

/-- The word stays as it is. -/
theorem quiet (h : s.Inv) (hinside : t.pc.inside = (s.tasks f).pc.inside)
    (hread : t.holdsRead = (s.tasks f).holdsRead) (hwrite : t.holdsWrite = (s.tasks f).holdsWrite)
    (hreleasing : (s.tasks f).pc.releasing = true → t.pc.releasing = true) (hflags : t.Flags)
    (halarmed : t.Alarmed (f ∈ s.waiters)) (hlinked : f ∈ s.waiters → t.queued = true)
    (hpush : t.pc = .push → s.Marked) (hwatches : s.Watches f → (s.setTask f t).Watches f) :
    (s.setTask f t).Inv := by
  have hframe := Frame.own s f t s.state
  refine h.act s.state hinside hflags halarmed hlinked ?_ ?_ ?_
  · exact h.holders.same hframe.others (by rw [own_self, hread]) (by rw [own_self, hwrite]) rfl rfl
  · rintro (hp | hs)
    · exact hframe.marked (hpush hp) Or.inl (by rw [own_self]; exact hreleasing)
    · exact hframe.marked hs Or.inl (by rw [own_self]; exact hreleasing)
  · exact fun hs => hframe.covered hs (fun hheld hc => Or.inl ⟨hheld, hc⟩)
      fun hf => Or.inr ⟨f, hwatches hf⟩

/-- Only the program counter of `f` moves. -/
theorem move (h : s.Inv) (hinside : pc.inside = (s.tasks f).pc.inside)
    (hread : ({ s.tasks f with pc := pc } : Task).holdsRead = (s.tasks f).holdsRead)
    (hwrite : ({ s.tasks f with pc := pc } : Task).holdsWrite = (s.tasks f).holdsWrite)
    (hreleasing : (s.tasks f).pc.releasing = false) (hacquiring : (s.tasks f).pc.acquiring = false)
    (hflags : ({ s.tasks f with pc := pc } : Task).Flags)
    (halarmed : ({ s.tasks f with pc := pc } : Task).Alarmed (f ∈ s.waiters))
    (hpush : pc = .push → s.Marked) : (s.goto f pc).Inv := by
  refine h.quiet hinside hread hwrite ?_ hflags halarmed (h.linked f) hpush ?_
  · rw [hreleasing]
    exact fun hf => absurd hf (by simp)
  · exact fun hf => hf.keep hreleasing hacquiring rfl rfl

/-- A task ends that waits for nothing and holds nothing. -/
theorem finish (h : s.Inv) (hinside : (s.tasks f).pc.inside = false)
    (hread : (s.tasks f).holdsRead = false) (hwrite : (s.tasks f).holdsWrite = false)
    (hreleasing : (s.tasks f).pc.releasing = false) (hacquiring : (s.tasks f).pc.acquiring = false)
    (hqueued : (s.tasks f).queued = false) (hwoken : (s.tasks f).woken = false) :
    (s.finish f).Inv := by
  have hnot : f ∉ s.waiters := by
    intro hmem
    rw [h.linked f hmem] at hqueued
    exact absurd hqueued (by simp)
  refine h.quiet hinside.symm hread.symm hwrite.symm ?_ ?_ ?_ (fun hmem => absurd hmem hnot) ?_ ?_
  · rw [hreleasing]
    exact fun hf => absurd hf (by simp)
  · exact ⟨fun _ => ⟨rfl, rfl⟩, fun _ => rfl, nofun, nofun, nofun, nofun⟩
  · exact nofun
  · exact nofun
  · unfold Watches Awake
    rw [hreleasing, hacquiring, hqueued, hwoken]
    simp

/-! ## `try_read` and `try_write` -/

theorem tryReadCheck (h : s.Inv) (hpc : (s.tasks f).pc = .fresh ∨ ∃ seen, (s.tasks f).pc = .tryRead seen)
    (seen : Word) : (s.tryReadCheck f seen).Inv := by
  have hidle : (s.tasks f).pc.idle = true := by
    rcases hpc with hpc | ⟨seen', hpc⟩ <;> rw [hpc] <;> rfl
  obtain ⟨hqueued, hwoken⟩ := (h.flags f).idle hidle
  unfold RwLock.tryReadCheck
  split
  · rcases hpc with hpc | ⟨seen', hpc⟩ <;>
      exact h.finish (by rw [hpc]; rfl) (by simp [Task.holdsRead, hpc])
        (by simp [Task.holdsWrite, hpc]) (by rw [hpc]; rfl) (by rw [hpc]; rfl) hqueued hwoken
  · rename_i hcheck
    simp only [Bool.or_eq_true, not_or, Bool.not_eq_true] at hcheck
    have hflags : ({ s.tasks f with pc := .tryRead seen } : Task).Flags := by
      refine ⟨fun _ => ⟨hqueued, hwoken⟩, nofun, nofun, nofun, ?_, nofun⟩
      intro seen' heq
      cases heq
      exact hcheck.1
    rcases hpc with hpc | ⟨seen', hpc⟩ <;>
      exact h.move (by rw [hpc]; rfl) (by simp [Task.holdsRead, hpc])
        (by simp [Task.holdsWrite, hpc]) (by rw [hpc]; rfl) (by rw [hpc]; rfl) hflags nofun nofun

/-- A task that waits for nothing takes a lock that is not contended. -/
theorem barge (h : s.Inv) (hinside : (s.tasks f).pc.inside = false)
    (hreleasing : (s.tasks f).pc.releasing = false) (hacquiring : (s.tasks f).pc.acquiring = false)
    (hqueued : (s.tasks f).queued = false) (hwoken : (s.tasks f).woken = false)
    (hcontended : s.state.contended = false) (hinside' : t.pc.inside = false) (hflags : t.Flags)
    (hidle : t.pc.idle = true) (hholders : Holders { s.setTask f t with state := w }) :
    Inv { s.setTask f t with state := w } := by
  have hnot : f ∉ s.waiters := by
    intro hmem
    rw [h.linked f hmem] at hqueued
    exact absurd hqueued (by simp)
  have hframe := Frame.own s f t w
  have habsurd : s.state.contended = true → False := by
    rw [hcontended]
    exact fun hc => absurd hc (by simp)
  refine h.act w (hinside'.trans hinside.symm) hflags ?_ (fun hmem => absurd hmem hnot) hholders
    ?_ ?_
  · intro hpc
    rw [hpc] at hidle
    exact absurd hidle (by simp [Pc.idle])
  · rintro (hpush | hs)
    · rw [hpush] at hidle
      exact absurd hidle (by simp [Pc.idle])
    · refine hframe.marked hs (fun hc => absurd hc habsurd) ?_
      rw [hreleasing]
      exact fun hf => absurd hf (by simp)
  · refine fun hs => hframe.covered hs (fun _ hc => absurd hc habsurd) fun hf => ?_
    unfold Watches Awake at hf
    rw [hreleasing, hacquiring, hqueued, hwoken] at hf
    exact absurd hf (by simp)

theorem tryReadExchange (h : s.Inv) {seen : Word} (hpc : (s.tasks f).pc = .tryRead seen) :
    (s.tryReadExchange f seen).Inv := by
  obtain ⟨hqueued, hwoken⟩ := (h.flags f).idle (by rw [hpc]; rfl)
  obtain ⟨hwriter, hcontended⟩ := (h.flags f).tryRead seen hpc
  unfold RwLock.tryReadExchange
  split
  · rename_i hstate
    subst hstate
    refine h.barge (by rw [hpc]; rfl) (by rw [hpc]; rfl) (by rw [hpc]; rfl) hqueued hwoken
      hcontended rfl ⟨fun _ => ⟨hqueued, hwoken⟩, nofun, nofun, nofun, nofun, nofun⟩ rfl ?_
    refine h.holders.beginRead (Frame.own s f _ _).others hwriter (by simp [Task.holdsRead, hpc]) ?_ ?_
      hwriter rfl
    · rw [own_self]
      rfl
    · rw [own_self]
      rfl
  · exact h.tryReadCheck (Or.inr ⟨seen, hpc⟩) s.state

theorem tryWrite (h : s.Inv) (hpc : (s.tasks f).pc = .fresh) : (s.tryWrite f).Inv := by
  obtain ⟨hqueued, hwoken⟩ := (h.flags f).idle (by rw [hpc]; rfl)
  unfold RwLock.tryWrite
  split
  · rename_i hstate
    refine h.barge (by rw [hpc]; rfl) (by rw [hpc]; rfl) (by rw [hpc]; rfl) hqueued hwoken
      (by rw [hstate]; rfl) rfl ⟨fun _ => ⟨hqueued, hwoken⟩, nofun, nofun, nofun, nofun, nofun⟩ rfl ?_
    refine h.holders.beginWrite (Frame.own s f _ _).others (by rw [hstate]; rfl) (by rw [hstate]; rfl)
      ?_ ?_ rfl rfl
    · rw [own_self]
      rfl
    · rw [own_self]
      rfl
  · exact h.finish (by rw [hpc]; rfl) (by simp [Task.holdsRead, hpc])
      (by simp [Task.holdsWrite, hpc]) (by rw [hpc]; rfl) (by rw [hpc]; rfl) hqueued hwoken

/-! ## The futures -/

theorem create (h : s.Inv) (hpc : (s.tasks f).pc = .fresh) (kind : Kind) :
    (s.create f kind).Inv := by
  obtain ⟨hqueued, hwoken⟩ := (h.flags f).idle (by rw [hpc]; rfl)
  refine h.quiet (by rw [hpc]; rfl) (by simp [Task.holdsRead, hpc])
    (by simp [Task.holdsWrite, hpc]) (by simp [Pc.releasing, hpc]) ?_ ?_ ?_ nofun ?_
  · exact ⟨nofun, fun _ => rfl, nofun, nofun, nofun, nofun⟩
  · exact nofun
  · intro hmem
    rw [h.linked f hmem] at hqueued
    exact absurd hqueued (by simp)
  · unfold Watches Awake
    rw [hpc, hqueued, hwoken]
    simp [Pc.releasing, Pc.acquiring]

theorem poll (h : s.Inv) (hpc : (s.tasks f).pc = .pending) : (s.poll f).Inv := by
  refine h.quiet (by rw [hpc]; rfl) (by simp [Task.holdsRead, hpc])
    (by simp [Task.holdsWrite, hpc]) (by simp [Pc.releasing, hpc])
    ⟨nofun, nofun, nofun, nofun, nofun, nofun⟩ nofun (h.linked f) nofun
    fun hf => hf.keep (by rw [hpc]; rfl) (by rw [hpc]; rfl) rfl rfl

/-- The poll moves on to a point that asks nothing of the flags. -/
theorem proceed (h : s.Inv) (hinside : (s.tasks f).pc.inside = false)
    (hread : (s.tasks f).holdsRead = false) (hwrite : (s.tasks f).holdsWrite = false)
    (hreleasing : (s.tasks f).pc.releasing = false) (hacquiring : (s.tasks f).pc.acquiring = false)
    (hpc : (∃ spins, pc = .load spins) ∨ (∃ spins, pc = .register spins) ∨ pc = .removing) :
    (s.goto f pc).Inv := by
  rcases hpc with ⟨spins, rfl⟩ | ⟨spins, rfl⟩ | rfl <;>
    exact h.move hinside.symm hread.symm hwrite.symm hreleasing hacquiring
      ⟨nofun, nofun, nofun, nofun, nofun, nofun⟩ nofun nofun

theorem pollLoad (h : s.Inv) {spins : Nat} (hpc : (s.tasks f).pc = .load spins)
    (hfits : ¬ Overflows (s.tasks f) s.state) : (s.pollLoad f spins).Inv := by
  have hinside : (s.tasks f).pc.inside = false := by rw [hpc]; rfl
  have hread : (s.tasks f).holdsRead = false := by simp [Task.holdsRead, hpc]
  have hwrite : (s.tasks f).holdsWrite = false := by simp [Task.holdsWrite, hpc]
  have hreleasing : (s.tasks f).pc.releasing = false := by rw [hpc]; rfl
  have hacquiring : (s.tasks f).pc.acquiring = false := by rw [hpc]; rfl
  unfold RwLock.pollLoad
  simp only [if_neg hfits]
  split
  · rename_i hmay
    refine h.move hinside.symm hread.symm hwrite.symm hreleasing hacquiring
      ⟨nofun, nofun, nofun, nofun, nofun, ?_⟩ nofun nofun
    intro spins' seen heq
    cases heq
    exact hmay
  · split
    · exact h.proceed hinside hread hwrite hreleasing hacquiring (Or.inl ⟨_, rfl⟩)
    · exact h.proceed hinside hread hwrite hreleasing hacquiring (Or.inr (Or.inl ⟨_, rfl⟩))

theorem pollRegister (h : s.Inv) {spins : Nat} (hpc : (s.tasks f).pc = .register spins) :
    (s.pollRegister f spins).Inv := by
  have hqueue : ∀ b, (s.tasks f).queued = b → Inv (s.setTask f { s.tasks f with
      registered := true
      pc := if b then .checkLinked spins else .enter spins }) := by
    intro b hqueued
    cases b with
    | false =>
      exact h.quiet (by rw [hpc]; rfl) (by simp [Task.holdsRead, hpc])
        (by simp [Task.holdsWrite, hpc]) (by simp [Pc.releasing, hpc])
        ⟨nofun, fun _ => hqueued, nofun, fun _ => Or.inl rfl, nofun, nofun⟩ nofun (h.linked f)
        nofun fun hf => hf.keep (by rw [hpc]; rfl) (by rw [hpc]; rfl) rfl rfl
    | true =>
      exact h.quiet (by rw [hpc]; rfl) (by simp [Task.holdsRead, hpc])
        (by simp [Task.holdsWrite, hpc]) (by simp [Pc.releasing, hpc])
        ⟨nofun, nofun, nofun, fun _ => Or.inl rfl, nofun, nofun⟩ nofun (h.linked f)
        nofun fun hf => hf.keep (by rw [hpc]; rfl) (by rw [hpc]; rfl) rfl rfl
  exact hqueue _ rfl

theorem pollCheckLinked (h : s.Inv) {spins : Nat} (hpc : (s.tasks f).pc = .checkLinked spins) :
    (s.pollCheckLinked f spins).Inv := by
  unfold RwLock.pollCheckLinked
  split
  · rename_i hmem
    have hqueued := h.linked f hmem
    refine h.move (by rw [hpc]; rfl) (by simp [Task.holdsRead, hpc])
      (by simp [Task.holdsWrite, hpc]) (by rw [hpc]; rfl) (by rw [hpc]; rfl)
      ⟨nofun, nofun, fun _ _ => hqueued, nofun, nofun, nofun⟩ ?_ nofun
    intro _ _
    rcases (h.flags f).alert (by rw [hpc]; rfl) with hregistered | hnotified
    · exact Or.inr ⟨hregistered, hmem⟩
    · exact Or.inl hnotified
  · rename_i hnot
    refine h.quiet (by rw [hpc]; rfl) (by simp [Task.holdsRead, hpc])
      (by simp [Task.holdsWrite, hpc]) (by simp [Pc.releasing, hpc])
      ⟨nofun, nofun, nofun, nofun, nofun, nofun⟩ nofun (fun hmem => absurd hmem hnot) nofun ?_
    -- the release that unlinked the future is remembered in `woken`
    unfold Watches Awake
    rw [setTask_self]
    exact fun _ => Or.inr (Or.inr (Or.inr ⟨rfl, rfl⟩))

theorem dropFuture (h : s.Inv) (hpc : (s.tasks f).pc = .pending) : (s.dropFuture f).Inv := by
  have hinside : (s.tasks f).pc.inside = false := by rw [hpc]; rfl
  have hread : (s.tasks f).holdsRead = false := by simp [Task.holdsRead, hpc]
  have hwrite : (s.tasks f).holdsWrite = false := by simp [Task.holdsWrite, hpc]
  have hreleasing : (s.tasks f).pc.releasing = false := by rw [hpc]; rfl
  have hacquiring : (s.tasks f).pc.acquiring = false := by rw [hpc]; rfl
  unfold RwLock.dropFuture
  split
  · exact h.proceed hinside hread hwrite hreleasing hacquiring (Or.inr (Or.inr rfl))
  · rename_i hqueued
    rw [Bool.not_eq_true] at hqueued
    have hwoken : (s.tasks f).woken = false := by
      cases hw : (s.tasks f).woken with
      | false => rfl
      | true =>
        rw [(h.flags f).pending hpc hw] at hqueued
        exact absurd hqueued (by simp)
    exact h.finish hinside hread hwrite hreleasing hacquiring hqueued hwoken

end Inv

/-- What the check before an exchange says about the word. -/
theorem mayAcquire_spec {seen : Word} (h : mayAcquire t seen = true) :
    seen.writer = false ∧ (t.kind = .writer → seen.readers = 0) ∧
      (t.queued = false → t.woken = false → seen.contended = false) := by
  unfold mayAcquire at h
  split at h
  · rename_i hkind
    rw [Bool.and_eq_true, Bool.not_eq_true'] at h
    refine ⟨h.1, fun hk => by simp [hkind] at hk, fun hq hw => ?_⟩
    rw [hq, hw] at h
    simpa using h.2
  · split at h
    · rename_i hflag
      rw [Bool.and_eq_true, Bool.not_eq_true', beq_iff_eq] at h
      refine ⟨h.1, fun _ => h.2, fun hq hw => ?_⟩
      rw [hq, hw] at hflag
      exact absurd hflag (by simp)
    · rw [beq_iff_eq] at h
      rw [h]
      exact ⟨rfl, fun _ => rfl, fun _ _ => rfl⟩

/-- Acquiring the lock keeps it held and keeps `CONTENDED`. -/
theorem acquire_spec (kind : Kind) (seen : Word) :
    Held (acquire kind seen) ∧ (acquire kind seen).contended = seen.contended := by
  cases kind with
  | reader => exact ⟨Or.inr (Nat.succ_pos _), rfl⟩
  | writer => exact ⟨Or.inl rfl, rfl⟩

/-- The holders after `f` acquired the lock with the word unchanged since it looked. -/
theorem Holders.acquire (h : s.Holders) (hmay : mayAcquire (s.tasks f) s.state = true)
    (hfree : (s.tasks f).holdsRead = false) (hread : t.holdsRead = decide ((s.tasks f).kind = .reader))
    (hwrite : t.holdsWrite = decide ((s.tasks f).kind = .writer)) :
    Holders { s.setTask f t with state := RwLock.acquire (s.tasks f).kind s.state } := by
  obtain ⟨hwriter, hreaders, -⟩ := mayAcquire_spec hmay
  have hframe := Frame.own s f t (RwLock.acquire (s.tasks f).kind s.state)
  cases hkind : (s.tasks f).kind with
  | reader =>
    rw [hkind] at hread hwrite hframe
    exact h.beginRead hframe.others hwriter hfree (by rw [own_self, hread]; rfl)
      (by rw [own_self, hwrite]; rfl) hwriter rfl
  | writer =>
    rw [hkind] at hread hwrite hframe
    exact h.beginWrite hframe.others hwriter (hreaders hkind) (by rw [own_self, hwrite]; rfl)
      (by rw [own_self, hread]; rfl) rfl rfl

namespace Inv

theorem pollExchange (h : s.Inv) {spins : Nat} {seen : Word}
    (hpc : (s.tasks f).pc = .exchange spins seen) : (s.pollExchange f spins seen).Inv := by
  have hinside : (s.tasks f).pc.inside = false := by rw [hpc]; rfl
  have hread : (s.tasks f).holdsRead = false := by simp [Task.holdsRead, hpc]
  have hwrite : (s.tasks f).holdsWrite = false := by simp [Task.holdsWrite, hpc]
  have hreleasing : (s.tasks f).pc.releasing = false := by rw [hpc]; rfl
  have hacquiring : (s.tasks f).pc.acquiring = false := by rw [hpc]; rfl
  have hmay := (h.flags f).exchange spins seen hpc
  unfold RwLock.pollExchange
  simp only
  by_cases hstate : s.state = seen
  · subst hstate
    rw [if_pos rfl]
    obtain ⟨hheld, hcontended⟩ := acquire_spec (s.tasks f).kind s.state
    obtain ⟨-, -, hbarge⟩ := mayAcquire_spec hmay
    by_cases hwaits : ((s.tasks f).queued || (s.tasks f).woken) = true
    · rw [if_pos hwaits]
      have hframe := Frame.own s f { s.tasks f with pc := .acquired }
        (RwLock.acquire (s.tasks f).kind s.state)
      refine h.act (t := { s.tasks f with pc := .acquired }) _ hinside.symm
        ⟨nofun, nofun, nofun, nofun, nofun, nofun⟩ nofun (h.linked f)
        (h.holders.acquire hmay hread rfl rfl) ?_ ?_
      · rintro (hpush | hs)
        · exact absurd hpush (by simp)
        · refine hframe.marked hs (fun hc => Or.inl (hcontended.trans hc)) ?_
          rw [hreleasing]
          exact fun hf => absurd hf (by simp)
      · refine fun hs => hframe.covered hs (fun _ hc => Or.inl ⟨hheld, hcontended.trans hc⟩) ?_
        refine fun _ => Or.inr ⟨f, Or.inr (Or.inl ?_)⟩
        rw [own_self]
        rfl
    · rw [if_neg hwaits]
      rw [Bool.or_eq_true, not_or, Bool.not_eq_true, Bool.not_eq_true] at hwaits
      obtain ⟨hqueued, hwoken⟩ := hwaits
      have hguard : ∀ kind, (guardPc kind).inside = false ∧ (guardPc kind).idle = true := by
        intro kind
        cases kind <;> exact ⟨rfl, rfl⟩
      refine h.barge (t := { s.tasks f with notified := false, pc := guardPc (s.tasks f).kind })
        hinside hreleasing hacquiring hqueued hwoken (hbarge hqueued hwoken) (hguard _).1 ?_
        (hguard _).2 (h.holders.acquire hmay hread ?_ ?_)
      · cases (s.tasks f).kind <;>
          exact ⟨fun _ => ⟨hqueued, hwoken⟩, nofun, nofun, nofun, nofun, nofun⟩
      · cases hkind : (s.tasks f).kind <;> rfl
      · cases hkind : (s.tasks f).kind <;> rfl
  · rw [if_neg hstate]
    exact h.proceed hinside hread hwrite hreleasing hacquiring (Or.inl ⟨_, rfl⟩)

/-! ## The queue lock -/

/-- `f` enters the queue lock. -/
theorem lockQueue (h : s.Inv) (hfree : s.queueLock = none) (hinside : pc.inside = true)
    (hread : ({ s.tasks f with pc := pc } : Task).holdsRead = (s.tasks f).holdsRead)
    (hwrite : ({ s.tasks f with pc := pc } : Task).holdsWrite = (s.tasks f).holdsWrite)
    (hflags : ({ s.tasks f with pc := pc } : Task).Flags) (hpending : pc ≠ .pending)
    (hpush : pc ≠ .push) (hwatches : s.Watches f → (s.goto f pc).Watches f) :
    Inv { s.goto f pc with queueLock := some f } := by
  have hself : ({ s.goto f pc with queueLock := some f } : RwLock).tasks f =
      { s.tasks f with pc := pc } := setTask_self
  have hframe : Frame s { s.goto f pc with queueLock := some f } f := by
    refine ⟨fun g hne => Or.inl (setTask_of_ne hne), ?_, fun _ _ hmem => hmem,
      fun _ _ hmem hnot => absurd hmem hnot⟩
    intro g hne
    rw [hfree]
    exact ⟨fun heq => absurd (Option.some.inj heq).symm hne, fun heq => absurd heq (by simp)⟩
  refine h.of_frame hframe ?_ h.nodup ?_ ?_ ?_ ?_ ?_ ?_
  · rw [hself]
    exact ⟨fun _ => rfl, fun _ => hinside⟩
  · rw [hself]
    exact h.linked f
  · rw [hself]
    exact hflags
  · rw [hself]
    exact fun heq => absurd heq hpending
  · exact h.holders.same hframe.others (by rw [hself, hread]) (by rw [hself, hwrite]) rfl rfl
  · rw [hself]
    rintro (heq | ⟨g, -, hlock, -⟩)
    · exact absurd heq hpush
    · rw [hfree] at hlock
      exact absurd hlock (by simp)
  · exact fun hne => hframe.covered (h.covered hne) (fun hheld hc => Or.inl ⟨hheld, hc⟩)
      fun hf => Or.inr ⟨f, hwatches hf⟩

/-- A step of the task inside the queue lock that does not end with a push. -/
theorem within (h : s.Inv) (hlock : s.queueLock = some f)
    (hothers : ∀ g, g ≠ f → (s.tasks g).Woken (s'.tasks g))
    (hinside : (s'.tasks f).pc.inside = true ↔ s'.queueLock = some f)
    (hleaves : s'.queueLock = some f ∨ s'.queueLock = none) (hnodup : s'.waiters.Nodup)
    (hwaiters : ∀ g, g ≠ f → (g ∈ s'.waiters ↔ g ∈ s.waiters))
    (hlinked : f ∈ s'.waiters → (s'.tasks f).queued = true) (hflags : (s'.tasks f).Flags)
    (halarmed : (s'.tasks f).Alarmed (f ∈ s'.waiters))
    (hread : (s'.tasks f).holdsRead = (s.tasks f).holdsRead)
    (hwrite : (s'.tasks f).holdsWrite = (s.tasks f).holdsWrite)
    (hreaders : s'.state.readers = s.state.readers) (hwriter : s'.state.writer = s.state.writer)
    (hpush : (s'.tasks f).pc ≠ .push)
    (hcovered : Frame s s' f → s'.waiters ≠ [] → s'.Covered) : s'.Inv := by
  have hframe : Frame s s' f := by
    refine ⟨hothers, ?_, fun g hne => (hwaiters g hne).mp,
      fun g hne hmem hnot => absurd ((hwaiters g hne).mpr hmem) hnot⟩
    intro g hne
    rw [hlock]
    refine ⟨fun heq => ?_, fun heq => absurd (Option.some.inj heq).symm hne⟩
    rcases hleaves with heq' | heq'
    · rw [heq'] at heq
      exact heq
    · rw [heq'] at heq
      exact absurd heq (by simp)
  refine h.of_frame hframe hinside hnodup hlinked hflags halarmed
    (h.holders.same hframe.others hread hwrite hreaders hwriter) ?_ (hcovered hframe)
  rintro (heq | ⟨g, hne, hg, -⟩)
  · exact absurd heq hpush
  · rw [hlock] at hg
    exact absurd (Option.some.inj hg).symm hne

theorem enterAcquired (h : s.Inv) (hpc : (s.tasks f).pc = .acquired) (hfree : s.queueLock = none) :
    Inv { s.goto f .mark with queueLock := some f } := by
  refine h.lockQueue hfree rfl (by simp [Task.holdsRead, hpc]) (by simp [Task.holdsWrite, hpc])
    ⟨nofun, nofun, nofun, nofun, nofun, nofun⟩ (by simp) (by simp) ?_
  refine fun _ => Or.inr (Or.inl ?_)
  unfold goto
  rw [setTask_self]
  rfl

theorem enterQueue (h : s.Inv) {spins : Nat} (hpc : (s.tasks f).pc = .enter spins)
    (hfree : s.queueLock = none) : Inv { s.goto f (.recheck spins) with queueLock := some f } := by
  have hflags := h.flags f
  refine h.lockQueue hfree rfl (by simp [Task.holdsRead, hpc]) (by simp [Task.holdsWrite, hpc])
    ⟨nofun, fun _ => hflags.joining (by rw [hpc]; rfl), nofun,
      fun _ => hflags.alert (by rw [hpc]; rfl), nofun, nofun⟩ (by simp) (by simp) ?_
  exact fun hf => hf.keep (by rw [hpc]; rfl) (by rw [hpc]; rfl) rfl rfl

theorem mem_erase_iff {waiters : List Nat} (hne : g ≠ f) : g ∈ waiters.erase f ↔ g ∈ waiters :=
  List.mem_erase_of_ne hne

/-- The node leaves the queue, and `CONTENDED` says whether others remain. -/
theorem unlink (h : s.Inv) (hpc : (s.tasks f).pc = .mark)
    (hothers : ∀ g, g ≠ f → s'.tasks g = s.tasks g)
    (hinside : (s'.tasks f).pc.inside = true ↔ s'.queueLock = some f)
    (hleaves : s'.queueLock = some f ∨ s'.queueLock = none)
    (hwaiters : s'.waiters = s.waiters.erase f)
    (hstate : s'.state = { s.state with contended := !(s.waiters.erase f).isEmpty })
    (hidle : (s'.tasks f).pc.idle = true) (hflags : (s'.tasks f).Flags)
    (hread : (s'.tasks f).holdsRead = (s.tasks f).holdsRead)
    (hwrite : (s'.tasks f).holdsWrite = (s.tasks f).holdsWrite) : s'.Inv := by
  have hlock : s.queueLock = some f := (h.lock f).mp (by rw [hpc]; rfl)
  have hgone : f ∉ s'.waiters := by
    rw [hwaiters]
    exact fun hmem => (h.nodup.mem_erase_iff.mp hmem).1 rfl
  refine h.within hlock (fun g hne => Or.inl (hothers g hne)) hinside hleaves ?_ ?_
    (fun hmem => absurd hmem hgone) hflags ?_ hread hwrite (by rw [hstate]) (by rw [hstate]) ?_ ?_
  · rw [hwaiters]
    exact h.nodup.erase f
  · intro g hne
    rw [hwaiters]
    exact mem_erase_iff hne
  · intro heq
    rw [heq] at hidle
    exact absurd hidle (by simp [Pc.idle])
  · intro heq
    rw [heq] at hidle
    exact absurd hidle (by simp [Pc.idle])
  · intro _ hne
    rw [hwaiters] at hne
    have hholds : (s.tasks f).holdsRead = true ∨ (s.tasks f).holdsWrite = true := by
      unfold Task.holdsRead Task.holdsWrite
      rw [hpc]
      cases (s.tasks f).kind <;> simp
    have hheld := h.holders.held hholds
    left
    rw [hstate]
    exact ⟨hheld, by simpa using hne⟩

theorem pollMark (h : s.Inv) (hpc : (s.tasks f).pc = .mark) : (s.pollMark f).Inv := by
  have hlock : s.queueLock = some f := (h.lock f).mp (by rw [hpc]; rfl)
  unfold RwLock.pollMark
  cases hkind : (s.tasks f).kind with
  | reader =>
    simp only [hkind]
    refine h.unlink hpc (fun g hne => setTask_of_ne hne) ?_ (Or.inl hlock) rfl rfl ?_ ?_ ?_ ?_ <;>
      rw [setTask_self]
    · exact ⟨fun _ => hlock, fun _ => rfl⟩
    · rfl
    · exact ⟨fun _ => ⟨rfl, rfl⟩, nofun, nofun, nofun, nofun, nofun⟩
    · simp [Task.holdsRead, hpc, hkind]
    · simp [Task.holdsWrite, hpc, hkind]
  | writer =>
    simp only [hkind, ready]
    refine h.unlink hpc (fun g hne => ?_) ?_ (Or.inr rfl) rfl rfl ?_ ?_ ?_ ?_
    · rw [setTask_of_ne hne, setTask_of_ne hne]
    all_goals rw [setTask_self, setTask_self]
    · exact ⟨fun hin => absurd hin (by simp [Pc.inside]), fun heq => absurd heq (by simp)⟩
    · rfl
    · exact ⟨fun _ => ⟨rfl, rfl⟩, nofun, nofun, nofun, nofun, nofun⟩
    · simp [Task.holdsRead, hpc, hkind]
    · simp [Task.holdsWrite, hpc, hkind]

theorem pollCascade (h : s.Inv) (hpc : (s.tasks f).pc = .cascade) : (s.pollCascade f).Inv := by
  have hlock : s.queueLock = some f := (h.lock f).mp (by rw [hpc]; rfl)
  obtain ⟨hqueued, hwoken⟩ := (h.flags f).idle (by rw [hpc]; rfl)
  have hframe := wakeFirstReader_frame s
  obtain ⟨hstate, hwaiters, -⟩ := wakeFirstReader_shared s
  have hself : (s.pollCascade f).tasks f =
      { s.wakeFirstReader.tasks f with notified := false, pc := .reading } := setTask_self
  refine h.within hlock (fun g hne => ?_) ?_ (Or.inr rfl) ?_ (fun g _ => ?_) ?_ ?_ ?_ ?_ ?_ ?_ ?_ ?_ ?_
  · show (s.tasks g).Woken ((s.wakeFirstReader.ready f .reading).tasks g)
    unfold ready
    rw [setTask_of_ne hne]
    exact hframe g
  · rw [hself]
    exact ⟨fun hin => absurd hin (by simp [Pc.inside]), fun heq => absurd heq (by simp [RwLock.pollCascade])⟩
  · exact hwaiters ▸ h.nodup
  · show g ∈ s.wakeFirstReader.waiters ↔ _
    rw [hwaiters]
  · intro hmem
    have hmem' : f ∈ s.waiters := hwaiters ▸ hmem
    rw [h.linked f hmem'] at hqueued
    exact absurd hqueued (by simp)
  · rw [hself]
    refine ⟨fun _ => ⟨?_, ?_⟩, nofun, nofun, nofun, nofun, nofun⟩
    · exact (hframe f).queued.trans hqueued
    · exact (hframe f).woken.trans hwoken
  · rw [hself]
    exact nofun
  · rw [hself]
    simp [Task.holdsRead, hpc]
  · rw [hself]
    simp [Task.holdsWrite, hpc]
  · show s.wakeFirstReader.state.readers = _
    rw [hstate]
  · show s.wakeFirstReader.state.writer = _
    rw [hstate]
  · rw [hself]
    simp
  · intro hframe' hne
    have hne' : s.waiters ≠ [] := hwaiters ▸ hne
    refine hframe'.covered (h.covered hne') (fun hheld hc => Or.inl ?_) fun hf => ?_
    · show Held s.wakeFirstReader.state ∧ s.wakeFirstReader.state.contended = true
      rw [hstate]
      exact ⟨hheld, hc⟩
    · unfold Watches Awake at hf
      rw [hpc, hqueued, hwoken] at hf
      exact absurd hf (by simp [Pc.releasing, Pc.acquiring])

theorem pollRecheck (h : s.Inv) {spins : Nat} (hpc : (s.tasks f).pc = .recheck spins) :
    (s.pollRecheck f spins).Inv := by
  have hlock : s.queueLock = some f := (h.lock f).mp (by rw [hpc]; rfl)
  have hjoining := (h.flags f).joining (by rw [hpc]; rfl)
  have halert := (h.flags f).alert (by rw [hpc]; rfl)
  unfold RwLock.pollRecheck
  split
  · have hself : ({ s.goto f (.load spins) with queueLock := none } : RwLock).tasks f =
        { s.tasks f with pc := .load spins } := setTask_self
    refine h.within hlock (fun g hne => Or.inl (setTask_of_ne hne)) ?_ (Or.inr rfl) h.nodup
      (fun _ _ => Iff.rfl) ?_ ?_ ?_ ?_ ?_ rfl rfl ?_ ?_
    · rw [hself]
      exact ⟨fun hin => absurd hin (by simp [Pc.inside]), fun heq => absurd heq (by simp)⟩
    · rw [hself]
      exact h.linked f
    · rw [hself]
      exact ⟨nofun, nofun, nofun, nofun, nofun, nofun⟩
    · rw [hself]
      exact nofun
    · rw [hself]
      simp [Task.holdsRead, hpc]
    · rw [hself]
      simp [Task.holdsWrite, hpc]
    · rw [hself]
      simp
    · intro hframe hne
      refine hframe.covered (h.covered hne) (fun hheld hc => Or.inl ⟨hheld, hc⟩) fun hf => ?_
      exact Or.inr ⟨f, hf.keep (by rw [hpc]; rfl) (by rw [hpc]; rfl) rfl rfl⟩
  · split
    · rename_i hcontended
      exact h.move (by rw [hpc]; rfl) (by simp [Task.holdsRead, hpc]) (by simp [Task.holdsWrite, hpc])
        (by rw [hpc]; rfl) (by rw [hpc]; rfl)
        ⟨nofun, fun _ => hjoining, nofun, fun _ => halert, nofun, nofun⟩ nofun
        fun _ => Or.inl hcontended
    · exact h.move (by rw [hpc]; rfl) (by simp [Task.holdsRead, hpc]) (by simp [Task.holdsWrite, hpc])
        (by rw [hpc]; rfl) (by rw [hpc]; rfl)
        ⟨nofun, fun _ => hjoining, nofun, fun _ => halert, nofun, nofun⟩ nofun nofun

theorem pollAnnounce (h : s.Inv) (hpc : (s.tasks f).pc = .announce) : (s.pollAnnounce f).Inv := by
  have hjoining := (h.flags f).joining (by rw [hpc]; rfl)
  have halert := (h.flags f).alert (by rw [hpc]; rfl)
  have hframe := Frame.own s f { s.tasks f with pc := .push } { s.state with contended := true }
  refine h.act (t := { s.tasks f with pc := .push }) { s.state with contended := true }
    (by rw [hpc]; rfl) ⟨nofun, fun _ => hjoining, nofun, fun _ => halert, nofun, nofun⟩ nofun
    (h.linked f) ?_ (fun _ => Or.inl rfl) ?_
  · refine h.holders.same hframe.others ?_ ?_ rfl rfl
    · rw [own_self]
      simp [Task.holdsRead, hpc]
    · rw [own_self]
      simp [Task.holdsWrite, hpc]
  · refine fun hs => hframe.covered hs (fun hheld _ => Or.inl ⟨hheld, rfl⟩) fun hf => ?_
    exact Or.inr ⟨f, hf.keep (by rw [hpc]; rfl) (by rw [hpc]; rfl) rfl rfl⟩

end Inv

/-! ## The moments that need care -/

/-- Apart from task `f`, somebody who does not hold the lock is going to come back to the
queue. -/
def Attended (s : RwLock) (f : Nat) : Prop :=
  (∃ g, (s.tasks g).pc.releasing = true) ∨ ∃ g, g ≠ f ∧ s.Awake g

/-- A future joins the queue only while the lock is held or the queue is attended to; one
that a release has unlinked is dropped only if nobody else is queued, the lock is held
and marked as contended, or the queue is attended to; and no poll panics. -/
def Careful (s : RwLock) (e : Nat × Action) : Prop :=
  e.2 = .advance →
    match (s.tasks e.1).pc with
    | .load _ => ¬ Overflows (s.tasks e.1) s.state
    | .push => Held s.state ∨ s.Attended e.1
    | .removing => e.1 ∈ s.waiters ∨ s.waiters = [] ∨
        Held s.state ∧ s.state.contended = true ∨ s.Attended e.1
    | _ => True

/-- Whoever attends to the queue goes on doing so. -/
theorem Attended.covered (h : s.Attended f) (hframe : Frame s s' f)
    (hf : (s.tasks f).pc.releasing = false) : s'.Covered := by
  rcases h with ⟨g, hg⟩ | ⟨g, hne, hg⟩
  · have hne : g ≠ f := by
      rintro rfl
      rw [hf] at hg
      exact absurd hg (by simp)
    exact Or.inr ⟨g, hframe.watches hne (Or.inl hg)⟩
  · exact Or.inr ⟨g, hframe.watches hne (Or.inr (Or.inr hg))⟩

namespace Inv

theorem pollPush (h : s.Inv) (hpc : (s.tasks f).pc = .push)
    (hcare : Held s.state ∨ s.Attended f) : (s.pollPush f).Inv := by
  have hlock : s.queueLock = some f := (h.lock f).mp (by rw [hpc]; rfl)
  have hjoining := (h.flags f).joining (by rw [hpc]; rfl)
  have halert := (h.flags f).alert (by rw [hpc]; rfl)
  have hnot : f ∉ s.waiters := by
    intro hmem
    rw [h.linked f hmem] at hjoining
    exact absurd hjoining (by simp)
  have hself : (s.pollPush f).tasks f = { s.tasks f with queued := true, pc := .pending } :=
    setTask_self
  refine h.within hlock (fun g hne => Or.inl (setTask_of_ne hne)) ?_ (Or.inr rfl) ?_ ?_ ?_ ?_ ?_ ?_ ?_
    rfl rfl ?_ ?_
  · rw [hself]
    exact ⟨fun hin => absurd hin (by simp [Pc.inside]), fun heq => absurd heq (by simp [RwLock.pollPush])⟩
  · show (s.waiters ++ [f]).Nodup
    exact List.nodup_append.mpr ⟨h.nodup, List.nodup_singleton f, fun a ha b hb => by
      rintro rfl
      rw [List.mem_singleton] at hb
      exact hnot (hb ▸ ha)⟩
  · intro g hne
    show g ∈ s.waiters ++ [f] ↔ _
    simp [hne]
  · rw [hself]
    exact fun _ => rfl
  · rw [hself]
    exact ⟨nofun, nofun, fun _ _ => rfl, nofun, nofun, nofun⟩
  · rw [hself]
    intro _ _
    rcases halert with hregistered | hnotified
    · exact Or.inr ⟨hregistered, List.mem_append_right _ (List.mem_singleton_self f)⟩
    · exact Or.inl hnotified
  · rw [hself]
    simp [Task.holdsRead, hpc]
  · rw [hself]
    simp [Task.holdsWrite, hpc]
  · rw [hself]
    simp
  · intro hframe _
    rcases hcare with hheld | hattended
    · rcases h.marked f hpc with hcontended | hreleasing
      · exact Or.inl ⟨hheld, hcontended⟩
      · exact Attended.covered (Or.inl hreleasing) hframe (by rw [hpc]; rfl)
    · exact hattended.covered hframe (by rw [hpc]; rfl)

theorem dropRemove (h : s.Inv) (hpc : (s.tasks f).pc = .removing) (hfree : s.queueLock = none)
    (hcare : f ∈ s.waiters ∨ s.waiters = [] ∨ Held s.state ∧ s.state.contended = true ∨
      s.Attended f) : (s.dropRemove f).Inv := by
  have hself : (s.dropRemove f).tasks f = { Task.fresh with pc := .gone } := setTask_self
  have hframe : Frame s (s.dropRemove f) f :=
    ⟨fun g hne => Or.inl (setTask_of_ne hne), fun _ _ => Iff.rfl,
      fun g hne => (mem_erase_iff hne).mp,
      fun g hne hmem hnot => absurd ((mem_erase_iff hne).mpr hmem) hnot⟩
  refine h.of_frame hframe ?_ (h.nodup.erase f) ?_ ?_ ?_ ?_ ?_ ?_
  · rw [hself]
    refine ⟨fun hin => absurd hin (by simp [Pc.inside]), fun heq => ?_⟩
    have heq' : s.queueLock = some f := heq
    rw [hfree] at heq'
    exact absurd heq' (by simp)
  · exact fun hmem => absurd rfl (h.nodup.mem_erase_iff.mp hmem).1
  · rw [hself]
    exact ⟨fun _ => ⟨rfl, rfl⟩, fun _ => rfl, nofun, nofun, nofun, nofun⟩
  · rw [hself]
    exact nofun
  · refine h.holders.same hframe.others ?_ ?_ rfl rfl
    · rw [hself]
      simp [Task.holdsRead, hpc]
    · rw [hself]
      simp [Task.holdsWrite, hpc]
  · rw [hself]
    rintro (heq | ⟨g, -, hlock, -⟩)
    · exact absurd heq (by simp)
    · rw [hfree] at hlock
      exact absurd hlock (by simp)
  · intro hne
    have hne' : s.waiters.erase f ≠ [] := hne
    rcases hcare with hmem | hnil | hheld | hattended
    · refine hframe.covered (h.covered (List.ne_nil_of_mem hmem))
        (fun hheld hc => Or.inl ⟨hheld, hc⟩) fun hf => ?_
      -- a linked future has not been handed a wake
      unfold Watches Awake at hf
      rw [hpc, h.linked f hmem] at hf
      exact absurd hf (by simp [Pc.releasing, Pc.acquiring, hmem])
    · rw [hnil] at hne'
      exact absurd hne' (by simp)
    · exact Or.inl hheld
    · exact hattended.covered hframe (by rw [hpc]; rfl)

/-! ## The guards -/

/-- A guard does not watch the queue. -/
theorem not_watches (h : s.Inv) (hidle : (s.tasks f).pc.idle = true)
    (hreleasing : (s.tasks f).pc.releasing = false) (hacquiring : (s.tasks f).pc.acquiring = false) :
    ¬ s.Watches f := by
  obtain ⟨hqueued, hwoken⟩ := (h.flags f).idle hidle
  unfold Watches Awake
  rw [hreleasing, hacquiring, hqueued, hwoken]
  simp

/-- A task that waits for nothing is not queued. -/
theorem not_linked (h : s.Inv) (hidle : (s.tasks f).pc.idle = true) : f ∉ s.waiters := by
  intro hmem
  have hqueued := ((h.flags f).idle hidle).1
  rw [h.linked f hmem] at hqueued
  exact absurd hqueued (by simp)

/-- The holder of the lock changes the word on its way out or down. -/
theorem release (h : s.Inv) (hidle : (s.tasks f).pc.idle = true)
    (hinside : (s.tasks f).pc.inside = false) (hinside' : t.pc.inside = false)
    (hreleasing : (s.tasks f).pc.releasing = true → t.pc.releasing = true)
    (hidle' : t.pc.idle = true) (hflags : t.Flags)
    (hholders : Holders { s.setTask f t with state := w })
    (hmarked : s.state.contended = true → w.contended = true ∨ t.pc.releasing = true)
    (hcovered : s.state.contended = true → Held w ∧ w.contended = true ∨ t.pc.releasing = true) :
    Inv { s.setTask f t with state := w } := by
  have hframe := Frame.own s f t w
  have hwatch : t.pc.releasing = true → Watches { s.setTask f t with state := w } f := by
    intro hr
    left
    rw [own_self]
    exact hr
  refine h.act w (hinside'.trans hinside.symm) hflags ?_ (fun hmem => absurd hmem (h.not_linked hidle))
    hholders ?_ ?_
  · intro hpc
    rw [hpc] at hidle'
    exact absurd hidle' (by simp [Pc.idle])
  · rintro (hpush | hs)
    · rw [hpush] at hidle'
      exact absurd hidle' (by simp [Pc.idle])
    · refine hframe.marked hs (fun hc => ?_) (by rw [own_self]; exact hreleasing)
      rcases hmarked hc with hc' | hr
      · exact Or.inl hc'
      · exact Or.inr ⟨f, by rw [own_self]; exact hr⟩
  · refine fun hs => hframe.covered hs (fun _ hc => ?_) fun hf => ?_
    · rcases hcovered hc with hc' | hr
      · exact Or.inl hc'
      · exact Or.inr ⟨f, hwatch hr⟩
    · obtain ⟨hqueued, hwoken⟩ := (h.flags f).idle hidle
      rcases hf with hf | hf | hf
      · exact Or.inr ⟨f, hwatch (hreleasing hf)⟩
      · revert hf hidle
        cases (s.tasks f).pc <;> simp [Pc.acquiring, Pc.idle]
      · unfold Awake at hf
        rw [hqueued, hwoken] at hf
        exact absurd hf (by simp)

theorem dropRead (h : s.Inv) (hpc : (s.tasks f).pc = .reading) : (s.dropRead f).Inv := by
  have hidle : (s.tasks f).pc.idle = true := by rw [hpc]; rfl
  have hread : (s.tasks f).holdsRead = true := by simp [Task.holdsRead, hpc]
  have hpos := h.holders.readers.pos hread
  have hflags := (h.flags f).idle hidle
  unfold RwLock.dropRead
  simp only
  split
  · refine h.release (t := { s.tasks f with pc := .popping }) hidle (by rw [hpc]; rfl) rfl
      (fun _ => rfl) rfl ⟨fun _ => hflags, nofun, nofun, nofun, nofun, nofun⟩ ?_
      (fun hc => Or.inl hc) fun _ => Or.inr rfl
    exact h.holders.endRead (Frame.own s f _ _).others hread (by rw [own_self]; rfl)
      (by rw [own_self]; rfl) rfl rfl
  · rename_i hlast
    refine h.release (t := { Task.fresh with pc := .gone }) hidle (by rw [hpc]; rfl) rfl
      (by simp [hpc, Pc.releasing]) rfl ⟨fun _ => ⟨rfl, rfl⟩, fun _ => rfl, nofun, nofun, nofun, nofun⟩ ?_
      (fun hc => Or.inl hc) fun hc => Or.inl ⟨?_, hc⟩
    · exact h.holders.endRead (Frame.own s f _ _).others hread (by rw [own_self]; rfl)
        (by rw [own_self]; rfl) rfl rfl
    · right
      show 0 < s.state.readers - 1
      have hne : s.state.readers ≠ 1 := fun heq => hlast ⟨heq, hc⟩
      omega

theorem dropWrite (h : s.Inv) (hpc : (s.tasks f).pc = .writing) : (s.dropWrite f).Inv := by
  have hidle : (s.tasks f).pc.idle = true := by rw [hpc]; rfl
  have hwrite : (s.tasks f).holdsWrite = true := by simp [Task.holdsWrite, hpc]
  have hflags := (h.flags f).idle hidle
  unfold RwLock.dropWrite
  split
  · rename_i hstate
    have hcontended : s.state.contended = true → False := by
      rw [hstate]
      exact fun hc => absurd hc (by simp [Word.unlocked])
    refine h.release (t := { Task.fresh with pc := .gone }) hidle (by rw [hpc]; rfl) rfl
      (by simp [hpc, Pc.releasing]) rfl ⟨fun _ => ⟨rfl, rfl⟩, fun _ => rfl, nofun, nofun, nofun, nofun⟩ ?_
      (fun hc => absurd hc hcontended) fun hc => absurd hc hcontended
    exact h.holders.endWrite (Frame.own s f _ _).others hwrite (by rw [own_self]; rfl) rfl
      (by rw [own_self]; rfl)
  · exact h.move (by rw [hpc]; rfl) (by simp [Task.holdsRead, hpc]) (by simp [Task.holdsWrite, hpc])
      (by rw [hpc]; rfl) (by rw [hpc]; rfl)
      ⟨fun _ => hflags, nofun, nofun, nofun, nofun, nofun⟩ nofun nofun

theorem dropStore (h : s.Inv) (hpc : (s.tasks f).pc = .storing) : (s.dropStore f).Inv := by
  have hidle : (s.tasks f).pc.idle = true := by rw [hpc]; rfl
  have hwrite : (s.tasks f).holdsWrite = true := by simp [Task.holdsWrite, hpc]
  refine h.release (t := { s.tasks f with pc := .popping }) hidle (by rw [hpc]; rfl) rfl
    (fun _ => rfl) rfl ⟨fun _ => (h.flags f).idle hidle, nofun, nofun, nofun, nofun, nofun⟩ ?_
    (fun _ => Or.inr rfl) fun _ => Or.inr rfl
  exact h.holders.endWrite (Frame.own s f _ _).others hwrite (by rw [own_self]; rfl) rfl
    (by rw [own_self]; rfl)

/-- `downgrade` looks at the word, again and again. -/
theorem downgradeLoad (h : s.Inv)
    (hpc : (s.tasks f).pc = .writing ∨ ∃ seen, (s.tasks f).pc = .downgrade seen) :
    (s.goto f (.downgrade s.state)).Inv := by
  rcases hpc with hpc | ⟨seen, hpc⟩ <;>
    exact h.move (by rw [hpc]; rfl) (by simp [Task.holdsRead, hpc]) (by simp [Task.holdsWrite, hpc])
      (by rw [hpc]; rfl) (by rw [hpc]; rfl)
      ⟨fun _ => (h.flags f).idle (by rw [hpc]; rfl), nofun, nofun, nofun, nofun, nofun⟩ nofun nofun

theorem downgradeExchange (h : s.Inv) {seen : Word} (hpc : (s.tasks f).pc = .downgrade seen) :
    (s.downgradeExchange f seen).Inv := by
  have hidle : (s.tasks f).pc.idle = true := by rw [hpc]; rfl
  have hwrite : (s.tasks f).holdsWrite = true := by simp [Task.holdsWrite, hpc]
  unfold RwLock.downgradeExchange
  split
  · rename_i hstate
    subst hstate
    have hzero := h.holders.exclusive (h.holders.writer.mpr ⟨f, hwrite⟩)
    refine h.release (t := { s.tasks f with pc := .handOver }) hidle (by rw [hpc]; rfl) rfl
      (by simp [hpc, Pc.releasing]) rfl
      ⟨fun _ => (h.flags f).idle hidle, nofun, nofun, nofun, nofun, nofun⟩ ?_
      (fun hc => Or.inl hc) fun hc => Or.inl ⟨Or.inr (Nat.succ_pos _), hc⟩
    refine h.holders.endWrite (Frame.own s f _ _).others hwrite (by rw [own_self]; rfl) rfl ?_
    rw [own_self, hzero]
    rfl
  · exact h.downgradeLoad (Or.inr ⟨seen, hpc⟩)

theorem downgradeWake (h : s.Inv) (hpc : (s.tasks f).pc = .handOver) : (s.downgradeWake f).Inv := by
  have hidle : (s.tasks f).pc.idle = true := by rw [hpc]; rfl
  obtain ⟨hqueued, hwoken⟩ := (h.flags f).idle hidle
  have hwakes := wakeFirstReader_frame s
  obtain ⟨hstate, hwaiters, hlock⟩ := wakeFirstReader_shared s
  have hself : (s.downgradeWake f).tasks f = { s.wakeFirstReader.tasks f with pc := .reading } :=
    setTask_self
  have hframe : Frame s (s.downgradeWake f) f := by
    refine ⟨fun g hne => ?_, fun g _ => ?_, fun g _ hmem => hwaiters ▸ hmem,
      fun g _ hmem hnot => absurd (show g ∈ s.wakeFirstReader.waiters from hwaiters.symm ▸ hmem) hnot⟩
    · unfold RwLock.downgradeWake goto
      rw [setTask_of_ne hne]
      exact hwakes g
    · show s.wakeFirstReader.queueLock = some g ↔ _
      rw [hlock]
  have hnot : f ∉ (s.downgradeWake f).waiters := by
    show f ∉ s.wakeFirstReader.waiters
    rw [hwaiters]
    exact h.not_linked hidle
  refine h.of_frame hframe ?_ (hwaiters ▸ h.nodup) (fun hmem => absurd hmem hnot) ?_ ?_ ?_ ?_ ?_
  · rw [hself]
    have hfree := h.lock f
    rw [hpc] at hfree
    show Pc.inside .reading = true ↔ s.wakeFirstReader.queueLock = some f
    rw [hlock]
    exact hfree
  · rw [hself]
    exact ⟨fun _ => ⟨(hwakes f).queued.trans hqueued, (hwakes f).woken.trans hwoken⟩, nofun, nofun,
      nofun, nofun, nofun⟩
  · rw [hself]
    exact nofun
  · refine h.holders.same hframe.others ?_ ?_ ?_ ?_
    · rw [hself]
      simp [Task.holdsRead, hpc]
    · rw [hself]
      simp [Task.holdsWrite, hpc]
    · exact congrArg Word.readers hstate
    · exact congrArg Word.writer hstate
  · rw [hself]
    rintro (heq | ⟨-, -, -, hs⟩)
    · exact absurd heq (by simp)
    · refine hframe.marked hs (fun hc => Or.inl ?_) (by simp [hpc, Pc.releasing])
      exact (congrArg Word.contended hstate).trans hc
  · intro hne
    have hne' : s.waiters ≠ [] := hwaiters ▸ hne
    refine hframe.covered (h.covered hne') (fun hheld hc => Or.inl ?_) fun hf => ?_
    · show Held s.wakeFirstReader.state ∧ s.wakeFirstReader.state.contended = true
      rw [hstate]
      exact ⟨hheld, hc⟩
    · exact absurd hf (h.not_watches hidle (by rw [hpc]; rfl) (by rw [hpc]; rfl))

/-- The drop of a guard ends, having popped the queue. -/
theorem popped (h : s.Inv) (hpc : (s.tasks f).pc = .popping) (hfree : s.queueLock = none)
    (hframe : Frame s s' f) (hself : s'.tasks f = { Task.fresh with pc := .gone })
    (hstate : s'.state = s.state) (hlock : s'.queueLock = s.queueLock)
    (hnodup : s'.waiters.Nodup) (hnot : f ∉ s'.waiters)
    (hcovered : s'.waiters ≠ [] → s'.Covered) : s'.Inv := by
  refine h.of_frame hframe ?_ hnodup (fun hmem => absurd hmem hnot) ?_ ?_ ?_ ?_ hcovered
  · rw [hself, hlock, hfree]
    exact ⟨fun hin => absurd hin (by simp [Pc.inside]), fun heq => absurd heq (by simp)⟩
  · rw [hself]
    exact ⟨fun _ => ⟨rfl, rfl⟩, fun _ => rfl, nofun, nofun, nofun, nofun⟩
  · rw [hself]
    exact nofun
  · refine h.holders.same hframe.others ?_ ?_ (by rw [hstate]) (by rw [hstate])
    · rw [hself]
      simp [Task.holdsRead, hpc]
    · rw [hself]
      simp [Task.holdsWrite, hpc]
  · rw [hself]
    rintro (heq | ⟨g, -, hg, -⟩)
    · exact absurd heq (by simp)
    · rw [hfree] at hg
      exact absurd hg (by simp)

theorem dropPop (h : s.Inv) (hpc : (s.tasks f).pc = .popping) (hfree : s.queueLock = none) :
    (s.dropPop f).Inv := by
  have hnot : f ∉ s.waiters := h.not_linked (by rw [hpc]; rfl)
  unfold RwLock.dropPop
  split
  · rename_i hnil
    exact h.popped hpc hfree (Frame.own s f _ s.state) setTask_self rfl rfl h.nodup hnot
      fun hne => absurd hnil hne
  · rename_i g rest hwaiters
    have hnodup := h.nodup
    rw [hwaiters, List.nodup_cons] at hnodup
    have hqueued : (s.tasks g).queued = true := h.linked g (by rw [hwaiters]; exact List.mem_cons_self ..)
    rw [hwaiters, List.mem_cons, not_or] at hnot
    have hne : g ≠ f := Ne.symm hnot.1
    have hframe : Frame s (({ s with waiters := rest }.wake g).finish f) f := by
      refine ⟨fun i hi => ?_, fun i _ => ?_, fun i _ hmem => ?_, fun i hi hmem hgone => ?_⟩
      · show (s.tasks i).Woken ((RwLock.setTask _ f _).tasks i)
        rw [setTask_of_ne hi]
        exact wake_woken (s := { s with waiters := rest }) g i
      · show ({ s with waiters := rest }.wake g).queueLock = some i ↔ _
        rw [wake_queueLock]
      · have hmem' : i ∈ ({ s with waiters := rest }.wake g).waiters := hmem
        rw [wake_waiters] at hmem'
        rw [hwaiters]
        exact List.mem_cons_of_mem g hmem'
      · have hgone' : i ∉ ({ s with waiters := rest }.wake g).waiters := hgone
        rw [wake_waiters] at hgone'
        rw [hwaiters, List.mem_cons] at hmem
        obtain rfl : i = g := hmem.resolve_right hgone'
        intro hregistered
        show ((RwLock.setTask _ f _).tasks i).notified = true
        rw [setTask_of_ne hi]
        exact wake_notified (s := { s with waiters := rest }) hregistered
    have hwaiters' : (({ s with waiters := rest }.wake g).finish f).waiters = rest :=
      wake_waiters (s := { s with waiters := rest }) g
    refine h.popped hpc hfree hframe setTask_self (wake_state (s := { s with waiters := rest }) g)
      (wake_queueLock (s := { s with waiters := rest }) g) ?_ ?_ fun _ => ?_
    · rw [hwaiters']
      exact hnodup.2
    · rw [hwaiters']
      exact hnot.2
    · -- the future that was popped takes over
      refine Or.inr ⟨g, Or.inr (Or.inr (Or.inl ⟨?_, ?_⟩))⟩
      · rw [(hframe.others g hne).queued]
        exact hqueued
      · rw [hwaiters']
        exact hnodup.1

end Inv

end RwLock

end Veloq.Sync
