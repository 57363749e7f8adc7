import FastPort.Core.RioBufferManager
import FastPort.Foundation.Pool

/-! The life of the sessions of the RIO server and the slices they hold. A session
takes two slices from the pool when it is created; neither its disconnect nor its
destructor gives them back, so the pool serves a number of creations and not, as
it is there to do, a number of sessions at a time. -/
namespace FastPort.Services

open FastPort.Core FastPort.Foundation.Pool FastPort.Foundation.Tally
open FastPort.Foundation.Transition FastPort.Foundation.Transition.System

namespace RIOServiceMode

def rioRecvBufferSize : UInt32 := 16 * 1024

def rioSendBufferSize : UInt32 := 16 * 1024

def poolSize : UInt32 := 1024 * 1024 * 64

structure RIOInboundSession where
  recvSlice : RioBufferSlice
  sendSlice : RioBufferSlice
  registered : Bool
deriving DecidableEq

/-- The pool, the sessions that exist, and how often `AllocateSlice` has been
called, which no step reads. -/
structure Server where
  manager : RioBufferManager
  sessions : List RIOInboundSession
  requests : Nat

inductive CreateSession where
  | allocateRecv
  | allocateSend (recvSlice : RioBufferSlice)
  | construct (recvSlice sendSlice : RioBufferSlice)
deriving DecidableEq

inductive Event where
  | accept
  | onAccepted (index : Nat)
  | onDisconnected (index : Nat)
  | destroyed (index : Nat)
deriving DecidableEq

/-- A call of `AllocateSlice` whose result is not looked at: a slice that was not
allocated stays as it was initialized. -/
def Server.allocate (s : Server) (size : UInt32) : RioBufferSlice × Server :=
  let (_, slice, manager) := s.manager.allocateSlice size .default
  (slice, { s with manager, requests := s.requests + 1 })

@[simp] theorem Server.allocate_sessions (s : Server) (size : UInt32) :
    (s.allocate size).2.sessions = s.sessions := rfl

@[simp] theorem Server.allocate_requests (s : Server) (size : UInt32) :
    (s.allocate size).2.requests = s.requests + 1 := rfl

def CreateSession.exec (s : Server) : CreateSession → Server × Option CreateSession
  | allocateRecv =>
      ((s.allocate rioRecvBufferSize).2,
        some (.allocateSend (s.allocate rioRecvBufferSize).1))
  | allocateSend recvSlice =>
      ((s.allocate rioSendBufferSize).2,
        some (.construct recvSlice (s.allocate rioSendBufferSize).1))
  | construct recvSlice sendSlice =>
      ({ s with sessions := s.sessions ++ [⟨recvSlice, sendSlice, false⟩] }, none)

/-- A connection is accepted; a session enters the container, leaves it, or loses
its last reference. The destructors give nothing back to the manager. -/
def Server.arrive (s : Server) : Event → Option (Server × Option CreateSession)
  | .accept => some (s, some .allocateRecv)
  | .onAccepted index =>
      match s.sessions[index]? with
      | none => none
      | some session =>
          some ({ s with sessions := s.sessions.set index { session with registered := true } },
            none)
  | .onDisconnected index =>
      match s.sessions[index]? with
      | none => none
      | some session =>
          some ({ s with sessions := s.sessions.set index { session with registered := false } },
            none)
  | .destroyed index =>
      match s.sessions[index]? with
      | none => none
      | some session =>
          if session.registered then none
          else some ({ s with sessions := s.sessions.eraseIdx index }, none)

/-- The pool as `OnStarted` leaves it, over memory that was allocated and
registered. -/
def machine : Machine Server (Option CreateSession) Unit Event where
  start s := ∃ memory registered, memory ≠ 0 ∧ registered ≠ rioInvalidBufferId ∧
    s = ⟨(RioBufferManager.default.initializeBuffer memory registered poolSize).2, [], 0⟩
  run _ s t := t.map fun f => f.exec s
  spawn event s := s.arrive event

abbrev World := State Server (Option CreateSession)

def system : System World (Move Unit Event) := machine.system

/-- How many slices of one buffer the pool holds. -/
def slots : Nat := poolSize.toNat / rioRecvBufferSize.toNat

/-- Both slices were allocated and have their sizes. -/
def Obtained (m : RioBufferManager) (recvSlice sendSlice : RioBufferSlice) : Prop :=
  m.Serves rioRecvBufferSize recvSlice ∧ m.Serves rioSendBufferSize sendSlice

structure Bumped (s : Server) : Prop where
  freeList : s.manager.freeList = []
  totalSize : s.manager.totalSize = poolSize
  currentOffset : s.manager.currentOffset.toNat = rioRecvBufferSize.toNat * min s.requests slots

theorem Bumped.allocate {s : Server} {size : UInt32} (h : Bumped s)
    (hsize : size = rioRecvBufferSize) :
    Bumped (s.allocate size).2 ∧ (s.allocate size).2.sessions = s.sessions ∧
      (s.allocate size).2.requests = s.requests + 1 ∧
      s.manager.SameChunk (s.allocate size).2.manager ∧
      (s.requests < slots → s.manager.Serves size (s.allocate size).1) ∧
      (slots ≤ s.requests → (s.allocate size).1 = .default) := by
  have hoffset := h.currentOffset
  have htotal : s.manager.totalSize.toNat = 16384 * 4096 := by rw [h.totalSize]; rfl
  have hslots : slots = 4096 := rfl
  have hlength : size.toNat = 16384 := by rw [hsize]; rfl
  rw [show rioRecvBufferSize.toNat = 16384 from rfl, hslots] at hoffset
  unfold Server.allocate
  by_cases hless : s.requests < slots
  · obtain ⟨slice, m, halloc, hserves, hsame, hfree, hnext⟩ :=
      RioBufferManager.allocateSlice_of_fits .default h.freeList
        (show s.manager.currentOffset.toNat + size.toNat ≤ _ by omega)
    simp only [halloc]
    refine ⟨⟨hfree, hsame.totalSize.trans h.totalSize, ?_⟩, trivial, trivial, hsame,
      fun _ => hserves, fun hge => absurd hless (Nat.not_lt_of_le hge)⟩
    simp only [hnext, show rioRecvBufferSize.toNat = 16384 from rfl]
    omega
  · have halloc : s.manager.allocateSlice size .default = (false, .default, s.manager) :=
      RioBufferManager.allocateSlice_of_full .default h.freeList (by omega) (by omega)
    simp only [halloc]
    refine ⟨⟨h.freeList, h.totalSize, ?_⟩, trivial, trivial, ⟨rfl, rfl, rfl⟩,
      fun hlt => absurd hlt hless, fun _ => trivial⟩
    simp only [show rioRecvBufferSize.toNat = 16384 from rfl]
    omega

variable {ok : World → Move Unit Event → Prop} {w : World}

theorem Server.arrive_same {s s' : Server} {event : Event} {t' : Option CreateSession}
    (h : s.arrive event = some (s', t')) :
    s'.manager = s.manager ∧ s'.requests = s.requests ∧
      (∀ session ∈ s'.sessions, ∃ old ∈ s.sessions, session.recvSlice = old.recvSlice ∧
        session.sendSlice = old.sendSlice) ∧
      (t' = none ∨ t' = some .allocateRecv) := by
  have hkeep : ∀ session ∈ s.sessions, ∃ old ∈ s.sessions,
      session.recvSlice = old.recvSlice ∧ session.sendSlice = old.sendSlice :=
    fun session hmem => ⟨session, hmem, rfl, rfl⟩
  cases event with
  | accept =>
    cases h
    exact ⟨rfl, rfl, hkeep, .inr rfl⟩
  | onAccepted index | onDisconnected index =>
    simp only [arrive] at h
    split at h
    · cases h
    · rename_i session hsession
      cases h
      refine ⟨rfl, rfl, forall_mem_set hkeep ?_, .inl rfl⟩
      exact ⟨session, List.mem_of_getElem? hsession, rfl, rfl⟩
  | destroyed index =>
    simp only [arrive] at h
    split at h
    · cases h
    · split at h
      · cases h
      · cases h
        exact ⟨rfl, rfl, fun session hmem => hkeep session (List.mem_of_mem_eraseIdx hmem),
          .inl rfl⟩

def CreateSession.FirstServed (s : Server) : CreateSession → Prop
  | allocateSend recvSlice =>
      s.requests ≤ slots → s.manager.Serves rioRecvBufferSize recvSlice
  | _ => True

theorem CreateSession.FirstServed.mono {s s' : Server} {f : CreateSession} (h : f.FirstServed s)
    (hsame : s.manager.SameChunk s'.manager) (hrequests : s.requests ≤ s'.requests) :
    f.FirstServed s' := by
  cases f with
  | allocateSend recvSlice => exact fun hle => (h (Nat.le_trans hrequests hle)).congr hsame
  | _ => trivial

structure Tracked (w : World) : Prop where
  bumped : Bumped w.shared
  first : ∀ t ∈ w.threads, ∀ f, t = some f → f.FirstServed w.shared

theorem tracked (hw : system.Reach ok w) : Tracked w := by
  refine Machine.invariant (m := machine) (I := Tracked) ?_ ?_ ?_ hw
  · rintro s ⟨memory, registered, hmemory, hregistered, rfl⟩
    refine ⟨?_, by simp⟩
    have hinit : RioBufferManager.default.initializeBuffer memory registered poolSize =
        (true, { RioBufferManager.default with
          pBuffer := memory, bufferId := registered, totalSize := poolSize }) := by
      simp [RioBufferManager.initializeBuffer, RioBufferManager.default, hmemory, hregistered]
    rw [hinit]
    exact ⟨rfl, rfl, rfl⟩
  · rintro w tid choice t s' t' _ ⟨hbumped, hfirst⟩ _ hthread hrun
    obtain ⟨f, rfl, hexec⟩ := Option.map_eq_some_iff.mp hrun
    cases f with
    | allocateRecv =>
      cases hexec
      obtain ⟨hbumped', -, hrequests, hsame, hserves, -⟩ :=
        hbumped.allocate (rfl : rioRecvBufferSize = _)
      refine ⟨hbumped', forall_mem_set (fun t ht f hf => ?_) ?_⟩
      · exact (hfirst t ht f hf).mono hsame (Nat.le.intro hrequests.symm)
      · rintro f ⟨⟩ hle
        exact (hserves (by simp only at hle; omega)).congr hsame
    | allocateSend recvSlice =>
      cases hexec
      obtain ⟨hbumped', -, hrequests, hsame, -⟩ :=
        hbumped.allocate (rfl : rioSendBufferSize = _)
      refine ⟨hbumped', forall_mem_set (fun t ht f hf => ?_) ?_⟩
      · exact (hfirst t ht f hf).mono hsame (Nat.le.intro hrequests.symm)
      · rintro f ⟨⟩
        trivial
    | construct recvSlice sendSlice =>
      cases hexec
      refine ⟨⟨hbumped.freeList, hbumped.totalSize, hbumped.currentOffset⟩,
        forall_mem_set (fun t ht f hf => ?_) (by simp)⟩
      exact (hfirst t ht f hf).mono ⟨rfl, rfl, rfl⟩ (Nat.le_refl _)
  · rintro w event s' t' _ ⟨hbumped, hfirst⟩ _ hspawn
    obtain ⟨hmanager, hrequests, -, ht'⟩ := Server.arrive_same hspawn
    refine ⟨⟨hmanager ▸ hbumped.freeList, hmanager ▸ hbumped.totalSize, ?_⟩,
      forall_mem_append_singleton (fun t ht f hf => ?_) ?_⟩
    · simp only [hmanager, hrequests]
      exact hbumped.currentOffset
    · refine (hfirst t ht f hf).mono ?_ (Nat.le_of_eq hrequests.symm)
      simp only [hmanager]
      exact ⟨rfl, rfl, rfl⟩
    · rcases ht' with rfl | rfl
      · simp
      · rintro f ⟨⟩
        trivial

def World.takesSecond (w : World) : Move Unit Event → Bool
  | .run tid _ =>
      match w.threads[tid]? with
      | some (some (.allocateSend _)) => true
      | _ => false
  | .spawn _ => false

/-- A second slice is only taken while the pool has slots left. -/
def early (w : World) (l : Move Unit Event) : Prop :=
  w.takesSecond l = true → w.shared.requests < slots

instance (w : World) (l : Move Unit Event) : Decidable (early w l) :=
  inferInstanceAs (Decidable (_ → _))

def CreateSession.SecondServed (s : Server) : CreateSession → Prop
  | construct recvSlice sendSlice => Obtained s.manager recvSlice sendSlice
  | _ => True

theorem CreateSession.SecondServed.congr {s s' : Server} {f : CreateSession}
    (h : f.SecondServed s) (hsame : s.manager.SameChunk s'.manager) : f.SecondServed s' := by
  cases f with
  | construct recvSlice sendSlice => exact ⟨h.1.congr hsame, h.2.congr hsame⟩
  | _ => trivial

structure Supplied (w : World) : Prop where
  second : ∀ t ∈ w.threads, ∀ f, t = some f → f.SecondServed w.shared
  sessions : ∀ session ∈ w.shared.sessions,
    Obtained w.shared.manager session.recvSlice session.sendSlice

theorem obtained_iff (hw : system.Reach ok w) {recvSlice : RioBufferSlice}
    (hthread : some (.allocateSend recvSlice) ∈ w.threads) :
    Obtained w.shared.manager recvSlice (w.shared.allocate rioSendBufferSize).1 ↔
      w.shared.requests < slots := by
  obtain ⟨hbumped, hfirst⟩ := tracked hw
  obtain ⟨-, -, -, -, hserves, hdefault⟩ := hbumped.allocate (rfl : rioSendBufferSize = _)
  constructor
  · rintro ⟨-, hsecond⟩
    by_contra hnot
    have hlength := hsecond.length
    rw [hdefault (Nat.le_of_not_lt hnot)] at hlength
    exact absurd hlength (by decide)
  · intro hless
    exact ⟨hfirst _ hthread _ rfl (Nat.le_of_lt hless), hserves hless⟩

theorem supplied (hw : system.Reach early w) : Supplied w := by
  refine Machine.invariant (m := machine) (I := Supplied) ?_ ?_ ?_ hw
  · rintro s ⟨memory, registered, -, -, rfl⟩
    exact ⟨by simp, by simp⟩
  · rintro w tid choice t s' t' hreach ⟨hsecond, hsessions⟩ hok hthread hrun
    obtain ⟨f, rfl, hexec⟩ := Option.map_eq_some_iff.mp hrun
    cases f with
    | allocateRecv =>
      cases hexec
      obtain ⟨-, hkeep, -, hsame, -⟩ :=
        (tracked hreach).bumped.allocate (rfl : rioRecvBufferSize = _)
      refine ⟨forall_mem_set (fun t ht f hf => (hsecond t ht f hf).congr hsame) ?_, ?_⟩
      · rintro f ⟨⟩
        trivial
      · simp only [hkeep]
        exact fun session hmem =>
          ⟨(hsessions session hmem).1.congr hsame, (hsessions session hmem).2.congr hsame⟩
    | allocateSend recvSlice =>
      cases hexec
      obtain ⟨-, hkeep, -, hsame, -⟩ :=
        (tracked hreach).bumped.allocate (rfl : rioSendBufferSize = _)
      have hless : w.shared.requests < slots := hok (by simp [World.takesSecond, hthread])
      obtain ⟨hfirst, hnew⟩ := (obtained_iff hreach (List.mem_of_getElem? hthread)).mpr hless
      refine ⟨forall_mem_set (fun t ht f hf => (hsecond t ht f hf).congr hsame) ?_, ?_⟩
      · rintro f ⟨⟩
        exact ⟨hfirst.congr hsame, hnew.congr hsame⟩
      · simp only [hkeep]
        exact fun session hmem =>
          ⟨(hsessions session hmem).1.congr hsame, (hsessions session hmem).2.congr hsame⟩
    | construct recvSlice sendSlice =>
      cases hexec
      refine ⟨forall_mem_set hsecond (by simp), forall_mem_append_singleton hsessions ?_⟩
      exact hsecond _ (List.mem_of_getElem? hthread) _ rfl
  · rintro w event s' t' _ ⟨hsecond, hsessions⟩ _ hspawn
    obtain ⟨hmanager, -, hslices, ht'⟩ := Server.arrive_same hspawn
    have hsame : w.shared.manager.SameChunk s'.manager := by
      rw [hmanager]
      exact ⟨rfl, rfl, rfl⟩
    refine ⟨forall_mem_append_singleton (fun t ht f hf => (hsecond t ht f hf).congr hsame) ?_, ?_⟩
    · rcases ht' with rfl | rfl
      · simp
      · rintro f ⟨⟩
        trivial
    · intro session hmem
      obtain ⟨old, hold, hrecv, hsend⟩ := hslices session hmem
      simp only [hmanager, hrecv, hsend]
      exact hsessions old hold

/-- How many sessions the pool is meant for. -/
def sessionLimit : Nat := poolSize.toNat / (rioRecvBufferSize.toNat + rioSendBufferSize.toNat)

def World.existing (w : World) : Nat :=
  w.shared.sessions.length + w.threads.countP Option.isSome

/-- No more sessions exist at a time than the pool is meant for. -/
def limited (w : World) (l : Move Unit Event) : Prop :=
  l = .spawn .accept → w.existing < sessionLimit

instance (w : World) (l : Move Unit Event) : Decidable (limited w l) :=
  inferInstanceAs (Decidable (_ → _))

/-- While the second slice of every session is taken from the slots of the pool,
every session has its two slices; a session gets them exactly in that case. -/
theorem sessions_supplied (hw : system.Reach early w) :
    (∀ session ∈ w.shared.sessions,
      Obtained w.shared.manager session.recvSlice session.sendSlice) ∧
    ∀ w', system.Reach free w' → ∀ recvSlice, some (.allocateSend recvSlice) ∈ w'.threads →
      (Obtained w'.shared.manager recvSlice (w'.shared.allocate rioSendBufferSize).1 ↔
        w'.shared.requests < slots) :=
  ⟨(supplied hw).sessions, fun _ hw' _ hthread => obtained_iff hw' hthread⟩

/-- The pool of a server that has just started. -/
def World.fresh : World :=
  ⟨⟨(RioBufferManager.default.initializeBuffer 65536 1 poolSize).2, [], 0⟩, []⟩

theorem World.reach_fresh : system.Reach ok World.fresh :=
  .init ⟨⟨65536, 1, by decide, by decide, rfl⟩, rfl⟩

/-- Two connections come in at once; the session that was constructed first is
destroyed, and a third one is created. -/
def turnoverRun : List (Move Unit Event) :=
  [.spawn .accept, .spawn .accept, .run 0 (), .run 1 (), .run 1 (), .run 0 (), .run 1 (), .run 0 (),
    .spawn (.destroyed 0), .spawn .accept, .run 3 (), .run 3 (), .run 3 (), .spawn (.onAccepted 1)]

theorem sessions_supplied_turnoverRun :
    ∃ w : World, system.runUnder early World.fresh turnoverRun = some w ∧
      w.shared.sessions.length = 2 ∧ w.shared.requests = 6 ∧
        ∀ session ∈ w.shared.sessions,
          Obtained w.shared.manager session.recvSlice session.sendSlice := by
  obtain ⟨w, hrun, hend⟩ := exists_of_runUnder system early World.fresh turnoverRun
    (fun w => w.shared.sessions.length == 2 && w.shared.requests == 6) (by decide)
  obtain ⟨htwo, hsix⟩ : w.shared.sessions.length = 2 ∧ w.shared.requests = 6 := by
    simpa using hend
  exact ⟨w, hrun, htwo, hsix, (sessions_supplied (World.reach_fresh.of_runUnder hrun)).1⟩

theorem existing_lt {s : Server} {threads : List (Option CreateSession)}
    (hsessions : s.sessions = []) (hidle : ∀ t ∈ threads, t = none) :
    World.existing ⟨s, threads⟩ < sessionLimit := by
  have hnone : threads.countP Option.isSome = 0 :=
    List.countP_eq_zero.mpr fun t ht => by simp [hidle t ht]
  simp only [World.existing, hsessions, hnone]
  decide

theorem step_last (s : Server) (threads : List (Option CreateSession)) (f : CreateSession) :
    system.step ⟨s, threads ++ [some f]⟩ (.run threads.length ()) =
      some ⟨(f.exec s).1, threads ++ [(f.exec s).2]⟩ := by
  simp [system, Machine.system, Machine.step, machine]

theorem exists_created {s : Server} {threads : List (Option CreateSession)}
    (hw : system.Reach limited ⟨s, threads⟩) (hlimit : World.existing ⟨s, threads⟩ < sessionLimit) :
    ∃ s' recvSlice sendSlice, system.Reach limited ⟨s', threads ++ [none]⟩ ∧
      s'.sessions = s.sessions ++ [⟨recvSlice, sendSlice, false⟩] ∧
      s'.requests = s.requests + 2 ∧
      (recvSlice, sendSlice) = ((s.allocate rioRecvBufferSize).1,
        ((s.allocate rioRecvBufferSize).2.allocate rioSendBufferSize).1) := by
  have hrun : ∀ (s : Server) (threads : List (Option CreateSession)) (tid : Nat),
      limited ⟨s, threads⟩ (.run tid ()) := by simp [limited]
  have haccept : system.Reach limited ⟨s, threads ++ [some .allocateRecv]⟩ :=
    hw.step (l := .spawn .accept) (fun _ => hlimit) rfl
  have hrecv := haccept.step (hrun _ _ _) (step_last _ _ _)
  have hsend := hrecv.step (hrun _ _ _) (step_last _ _ _)
  have hconstruct := hsend.step (hrun _ _ _) (step_last _ _ _)
  refine ⟨_, _, _, hconstruct, ?_, ?_, rfl⟩
  · simp [CreateSession.exec]
  · simp [CreateSession.exec]

theorem exists_turnover (n : Nat) : ∃ s threads, system.Reach limited ⟨s, threads⟩ ∧
    s.sessions = [] ∧ s.requests = 2 * n ∧ ∀ t ∈ threads, t = none := by
  induction n with
  | zero => exact ⟨_, _, World.reach_fresh, rfl, rfl, by simp⟩
  | succ n ih =>
    obtain ⟨s, threads, hw, hsessions, hrequests, hidle⟩ := ih
    obtain ⟨s', recvSlice, sendSlice, hcreated, hsessions', hrequests', -⟩ :=
      exists_created hw (existing_lt hsessions hidle)
    rw [hsessions, List.nil_append] at hsessions'
    have hdestroyed : system.step ⟨s', threads ++ [none]⟩ (.spawn (.destroyed 0)) =
        some ⟨{ s' with sessions := [] }, threads ++ [none] ++ [none]⟩ := by
      simp [system, Machine.system, Machine.step, machine, Server.arrive, hsessions']
    refine ⟨_, _, hcreated.step (by simp [limited]) hdestroyed, rfl, ?_, ?_⟩
    · simp only [hrequests', hrequests]
      omega
    · exact forall_mem_append_singleton (forall_mem_append_singleton hidle rfl) rfl

/-- The pool runs dry however few sessions exist at a time. -/
theorem not_sessions_supplied :
    ¬ ∀ w : World, system.Reach limited w → ∀ session ∈ w.shared.sessions,
      Obtained w.shared.manager session.recvSlice session.sendSlice := by
  intro hclaim
  obtain ⟨s, threads, hw, hsessions, hrequests, hidle⟩ := exists_turnover sessionLimit
  obtain ⟨s', recvSlice, sendSlice, hcreated, hsessions', -, hslices⟩ :=
    exists_created hw (existing_lt hsessions hidle)
  have hlength := (hclaim _ hcreated ⟨recvSlice, sendSlice, false⟩ (by simp [hsessions'])).1.length
  have hdefault := ((tracked hw).bumped.allocate (rfl : rioRecvBufferSize = _)).2.2.2.2.2
    (by rw [hrequests]; decide)
  have hfirst : recvSlice = (s.allocate rioRecvBufferSize).1 := congrArg Prod.fst hslices
  have hsize : RioBufferSlice.default.length = rioRecvBufferSize :=
    hdefault ▸ hfirst ▸ hlength
  exact absurd hsize (by decide)

end RIOServiceMode

end FastPort.Services
