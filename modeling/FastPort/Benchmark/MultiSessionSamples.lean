import FastPort.Benchmark.MultiSessionRequests

/-! What the context of a session holds is what its request holds, and so the samples are
those of the requests that were answered. -/
namespace FastPort.Benchmark.MultiSession

open FastPort.Foundation.Pool FastPort.Foundation.Stack FastPort.Foundation.Tally
open FastPort.Foundation.Transition

variable {setup : Setup} {ok : World → Label → Prop} {w : World} {i : Nat}

def Holds (setup : Setup) (context : SessionContext) (request : Request) : Prop :=
  context.sendTimeNs = request.clientTimestampNs ∧
    setup.payloads[context.payloadIndex]? = some request.payload

/-- What is known of the request of the session `i`, by where it is handled. -/
def Slot (setup : Setup) (i : Nat) (s : Shared) : Frame → Prop
  | .sendNext _ _ _ (.storePayloadIndex request payloadIndex) =>
      setup.payloads[payloadIndex]? = some request.payload
  | .sendNext _ _ _ (.storeSendTime request) =>
      setup.payloads[(s.contexts i).payloadIndex]? = some request.payload
  | .sendNext _ _ _ (.sendMessage request) => Holds setup (s.contexts i) request
  | .handler _ (.start response) => Holds setup (s.contexts i) response
  | .handler _ (.loadSendTime response _) =>
      response.measured = true ∧ Holds setup (s.contexts i) response
  | .handler _ (.loadPayloadIndex response _ sendTime) =>
      response.measured = true ∧ sendTime = response.clientTimestampNs ∧
        setup.payloads[(s.contexts i).payloadIndex]? = some response.payload
  | .handler _ (.addSample response _ sendTime payloadIndex) =>
      response.measured = true ∧ sendTime = response.clientTimestampNs ∧
        setup.payloads[payloadIndex]? = some response.payload
  | _ => True

def Kept (setup : Setup) (i : Nat) (s : Shared) : Prop :=
  ∀ request ∈ s.requests ++ s.responses, request.session = i →
    Holds setup (s.contexts i) request

theorem Slot.congr {s s' : Shared} {f : Frame} (h : Slot setup i s f)
    (hsame : s'.contexts i = s.contexts i) : Slot setup i s' f := by
  cases f with
  | sendNext session measured caller pc =>
    cases pc with
    | storeSendTime | sendMessage =>
      simp only [Slot, hsame]
      exact h
    | _ => exact h
  | handler session pc =>
    cases pc with
    | start | loadSendTime | loadPayloadIndex =>
      simp only [Slot, hsame]
      exact h
    | _ => exact h
  | main pc => exact h

theorem eq_of_ofSession {session : Nat} (measured : Bool)
    (h : 0 < ofSession i session measured) : session = i := by
  unfold ofSession at h
  by_contra hne
  rw [if_neg hne] at h
  exact Nat.lt_irrefl 0 h

theorem ne_of_ofSession {session : Nat} (measured : Bool)
    (h : ofSession i session measured = 0) : session ≠ i := by
  rintro rfl
  simp [ofSession] at h

@[simp] theorem ofSession_self (measured : Bool) : ofSession i i measured = 1 := if_pos rfl

def Alone (i : Nat) (s : Shared) : Prop :=
  ∀ request ∈ s.requests ++ s.responses, request.session ≠ i

theorem Alone.of_queued {s : Shared}
    (h : queued (ofSession i) s.requests s.responses = 0) : Alone i s := by
  have hnone := Nat.add_eq_zero_iff.mp h
  rintro request hrequest
  rcases List.mem_append.mp hrequest with hmem | hmem
  · exact ne_of_ofSession _ (tally_eq_zero.mp hnone.1 request hmem)
  · exact ne_of_ofSession _ (tally_eq_zero.mp hnone.2 request hmem)

theorem Alone.kept {s s' : Shared} (h : Alone i s)
    (hqueue : s'.requests ++ s'.responses = s.requests ++ s.responses) : Kept setup i s' := by
  intro request hrequest hsession
  exact absurd hsession (h request (hqueue ▸ hrequest))

/-- A step of the thread that handles the request of the session. -/
theorem Frame.Steps.slot {s s' : Shared} {f : Frame} {fs : List Frame}
    (hsteps : f.Steps setup s s' fs) (hpos : 0 < f.job (ofSession i)) (hformed : f.Formed)
    (hfits : f.Fits s) (halone : Alone i s) (h : Slot setup i s f) :
    Stacks.Settled (Frame.job (ofSession i)) (Slot setup i) (Kept setup i) s' fs := by
  cases hsteps with
  | prepares caller ticket sequence hsession hmeasured hpayload =>
    exact .cons hpayload hpos rfl
  | storesPayloadIndex session measured caller request =>
    obtain rfl := eq_of_ofSession measured hpos
    refine .cons ?_ hpos rfl
    simpa [Slot, Shared.setContext] using h
  | storesSendTime session measured caller request =>
    obtain rfl := eq_of_ofSession measured hpos
    have hindex : setup.payloads[(s.contexts session).payloadIndex]? = some request.payload := h
    refine .cons ⟨?_, ?_⟩ hpos rfl
    · simp [Shared.setContext]
    · simpa [Shared.setContext] using hindex
  | sendsMain session measured request | sends session measured done request =>
    obtain rfl := eq_of_ofSession measured hpos
    refine .of_idle (fun r hr hsession => ?_) rfl
    rcases List.mem_append.mp hr with hrequest | hresponse
    · rcases List.mem_append.mp hrequest with hold | hnew
      · exact absurd hsession (halone r (List.mem_append_left _ hold))
      · rw [List.mem_singleton.mp hnew]
        exact h
    · exact absurd hsession (halone r (List.mem_append_right _ hresponse))
  | startsWarmup session response hrunning => exact .cons trivial hpos rfl
  | startsMeasured session response recvTime hrunning =>
    have hphase := hfits session response rfl
    exact .cons ⟨hphase.trans hrunning, h⟩ hpos rfl
  | completesWarmup | completesMeasured => exact .of_idle (halone.kept rfl) rfl
  | loadsSendTime session response recvTime =>
    obtain rfl := eq_of_ofSession true hpos
    exact .cons ⟨h.1, h.2⟩ hpos rfl
  | loadsPayloadIndex session response recvTime sendTime =>
    obtain rfl := eq_of_ofSession true hpos
    exact .cons h hpos rfl
  | addsSample => exact .cons trivial hpos rfl
  | _ => cases hpos

structure Apart (i : Nat) (s s' : Shared) : Prop where
  context : s'.contexts i = s.contexts i
  requests : ∀ request ∈ s'.requests ++ s'.responses, request.session = i →
    request ∈ s.requests ++ s.responses

theorem Apart.of_same {s s' : Shared} (hcontext : s'.contexts i = s.contexts i)
    (hrequests : s'.requests = s.requests) (hresponses : s'.responses = s.responses) :
    Apart i s s' where
  context := hcontext
  requests request hrequest _ := by
    rw [hrequests, hresponses] at hrequest
    exact hrequest

theorem Apart.kept {s s' : Shared} (h : Apart i s s') (hkept : Kept setup i s) :
    Kept setup i s' := by
  intro request hrequest hsession
  rw [h.context]
  exact hkept request (h.requests request hrequest hsession) hsession

theorem Frame.Steps.apart {s s' : Shared} {f : Frame} {fs : List Frame}
    (hsteps : f.Steps setup s s' fs) (hother : f.job (ofSession i) = 0) (hformed : f.Formed) :
    Apart i s s' := by
  cases hsteps with
  | @prepares session measured | storesPayloadIndex session measured
  | storesSendTime session measured =>
    have hne := ne_of_ofSession measured hother
    exact .of_same (Function.update_of_ne (Ne.symm hne) _ _) rfl rfl
  | sendsMain session measured request | sends session measured done request =>
    refine ⟨rfl, fun r hr hsession => ?_⟩
    rcases List.mem_append.mp hr with hrequest | hresponse
    · rcases List.mem_append.mp hrequest with hold | hnew
      · exact List.mem_append_left _ hold
      · rw [List.mem_singleton.mp hnew, hformed.1] at hsession
        exact absurd hsession (ne_of_ofSession measured hother)
    · exact List.mem_append_right _ hresponse
  | _ => exact .of_same rfl rfl rfl

theorem Frame.Steps.slot_of_none {s s' : Shared} {f : Frame} {fs : List Frame}
    (hsteps : f.Steps setup s s' fs) (hother : f.job (ofSession i) = 0) :
    ∀ g ∈ fs, 0 < g.job (ofSession i) → Slot setup i s' g := by
  cases hsteps with
  | claims => exact List.forall_mem_singleton.mpr fun _ => trivial
  | returns | finishes => exact List.forall_mem_nil _
  | prepares | storesPayloadIndex | storesSendTime | startsWarmup | startsMeasured | loadsSendTime
  | loadsPayloadIndex | addsSample =>
    exact List.forall_mem_singleton.mpr fun hpos => absurd hother (Nat.ne_of_gt hpos)
  | _ => exact List.forall_mem_singleton.mpr fun hpos => absurd hpos (Nat.lt_irrefl 0)

theorem Shared.Arrived.apart {s s' : Shared} {event : Event} {fs : List Frame}
    (harrived : s.Arrived setup event s' fs) : Apart i s s' := by
  cases harrived with
  | start => exact .of_same rfl rfl rfl
  | answer hrequest =>
    refine ⟨rfl, fun r hr _ => ?_⟩
    simp only [List.mem_append, List.mem_singleton] at hr ⊢
    rcases hr with hmem | hmem | rfl
    · exact .inl (List.mem_of_mem_eraseIdx hmem)
    · exact .inr hmem
    · exact .inl (List.mem_of_getElem? hrequest)
  | deliver hresponse =>
    refine ⟨rfl, fun r hr _ => ?_⟩
    simp only [List.mem_append] at hr ⊢
    exact hr.imp_right List.mem_of_mem_eraseIdx

theorem Shared.Arrived.slot {s s' : Shared} {event : Event} {fs : List Frame}
    (harrived : s.Arrived setup event s' fs) (hkept : Kept setup i s) :
    ∀ g ∈ fs, 0 < g.job (ofSession i) → Slot setup i s' g := by
  cases harrived with
  | start => exact List.forall_mem_singleton.mpr fun hpos => absurd hpos (Nat.lt_irrefl 0)
  | answer => exact List.forall_mem_nil _
  | @deliver index response hresponse =>
    refine List.forall_mem_singleton.mpr fun hpos => ?_
    exact hkept response (List.mem_append_right _ (List.mem_of_getElem? hresponse))
      (eq_of_ofSession response.measured hpos)

theorem alone {tid : Nat} {f : Frame} {rest : List Frame} (hw : (system setup).Reach ok w)
    (hthread : w.threads[tid]? = some (f :: rest)) (hpos : 0 < f.job (ofSession i)) :
    Alone i w.shared := by
  have hone := outstanding_session_le_one i hw
  have hle : f.job (ofSession i) ≤ w.weigh (Frame.job (ofSession i)) :=
    Stacks.weight_le_weigh hthread
  unfold outstanding at hone
  exact .of_queued (by omega)

theorem slots (i : Nat) (hw : (system setup).Reach ok w) :
    Stacks.Staged (Frame.job (ofSession i)) (Slot setup i) (Kept setup i) w := by
  apply Program.token (p := program setup) ?_ ?_ ?_ ?_ ?_ hw
  · intro w hw
    have hone := outstanding_session_le_one i hw
    unfold outstanding at hone
    omega
  · rintro s rfl request hrequest
    cases hrequest
  · intro w tid choice f rest hreach _ hthread hpos h
    exact (f.steps_exec setup choice w.shared).slot hpos (formed_top hreach hthread)
      (fits hreach hthread) (alone hreach hthread hpos) h
  · intro w tid choice f rest hreach _ hthread hother
    have hsteps := f.steps_exec setup choice w.shared
    have hapart := hsteps.apart hother (formed_top hreach hthread)
    exact ⟨fun g _ h => h.congr hapart.context, fun hkept =>
      ⟨hsteps.slot_of_none hother, fun _ => hapart.kept hkept⟩⟩
  · intro w event s' fs hreach _ harrived
    have harrived := Shared.arrived harrived
    have hapart : Apart i w.shared s' := harrived.apart
    exact ⟨fun _ g _ h => h.congr hapart.context, fun _ hkept =>
      ⟨harrived.slot hkept, fun _ => hapart.kept hkept⟩⟩

def sampleOf (answer : UInt64 × Request) : Sample :=
  ⟨answer.1 - answer.2.clientTimestampNs, answer.2.payload.length⟩

/-- The samples are those of the answered requests, which are of the measured phase. -/
structure Sampled (s : Shared) : Prop where
  samples : s.samples = s.answered.map sampleOf
  measured : ∀ answer ∈ s.answered, answer.2.measured = true

theorem Frame.Steps.sampled {s s' : Shared} {f : Frame} {fs : List Frame}
    (hsteps : f.Steps setup s s' fs)
    (hslot : ∀ session response recvTime sendTime payloadIndex,
      f = .handler session (.addSample response recvTime sendTime payloadIndex) →
        Slot setup session s f) (h : Sampled s) : Sampled s' := by
  cases hsteps with
  | addsSample session response recvTime sendTime payloadIndex =>
    obtain ⟨hmeasured, rfl, hpayload⟩ := hslot _ _ _ _ _ rfl
    constructor
    · rw [List.map_append, ← h.samples, List.getD_eq_getElem?_getD, hpayload]
      rfl
    · exact List.forall_mem_append.mpr ⟨h.measured, List.forall_mem_singleton.mpr hmeasured⟩
  | _ => exact ⟨h.samples, h.measured⟩

theorem sampled (hw : (system setup).Reach ok w) : Sampled w.shared := by
  apply Program.invariant (p := program setup) (I := fun w => Sampled w.shared) ?_ ?_ ?_ hw
  · rintro s rfl
    exact ⟨rfl, fun _ h => nomatch h⟩
  · intro w tid choice f rest hreach ih _ hthread
    refine (f.steps_exec setup choice w.shared).sampled ?_ ih
    rintro session response recvTime sendTime payloadIndex rfl
    apply (slots session hreach).stage _ (List.mem_of_getElem? hthread) _ List.mem_cons_self
    simp [Frame.job]
  · intro w event s' fs _ ih _ harrived
    cases Shared.arrived harrived with
    | _ => exact ⟨ih.samples, ih.measured⟩

def Frame.sampledOnly : Frame → Nat
  | handler _ (.completeMeasured _) => 1
  | _ => 0

theorem samples_length (hw : (system setup).Reach ok w) :
    w.shared.samples.length = w.shared.completed true + w.weigh Frame.sampledOnly := by
  apply step_focus Frame.sampledOnly (J := fun s n => s.samples.length = s.completed true + n)
    rfl ?_ ?_ hw
  · intro w tid f rest s' fs others _ _ hsteps ih
    cases hsteps with
    | addsSample =>
      simp only [tally_cons, tally_nil, Frame.sampledOnly, List.length_append,
        List.length_singleton] at *
      omega
    | completesWarmup | completesMeasured =>
      simp only [tally_cons, tally_nil, Frame.sampledOnly, bump_apply, if_true,
        Bool.false_eq_true, if_false] at *
      omega
    | _ => simpa [Frame.sampledOnly, Shared.setContext] using ih
  · intro w event s' fs _ harrived ih
    cases harrived with
    | _ => simpa [Frame.sampledOnly] using ih

theorem samples_length_le (hw : (system setup).Reach ok w) :
    w.shared.samples.length ≤ setup.totalTarget := by
  have hlength := samples_length hw
  have hcounted := counted true hw
  have hframes : w.weigh Frame.sampledOnly ≤ w.weigh (Frame.job (ofPhase true)) := by
    refine Stacks.weigh_le_weigh (fun f => ?_) w
    cases f with
    | handler session pc =>
      cases pc with
      | completeMeasured => exact Nat.le_refl _
      | _ => exact Nat.zero_le _
    | _ => exact Nat.zero_le _
  have hlimit : min (w.shared.next true) (setup.limit true) ≤ setup.totalTarget :=
    Nat.min_le_right _ _
  unfold Counted at hcounted
  omega

theorem samples_length_finished (hw : (system setup).Reach ok w)
    (hfinished : w.shared.finished = true) : w.shared.samples.length = setup.totalTarget := by
  have hmain := isMain_eq hw
  have hstarted := Bool.toNat_le w.shared.started
  rw [hfinished, Bool.toNat_true] at hmain
  rcases ((staged hw).idle (by omega)).2 with ⟨hbefore, -⟩ | ⟨-, -, hdone⟩
  · rw [hfinished] at hbefore
    cases hbefore
  · have hlength := samples_length hw
    have hle := samples_length_le hw
    have hlimit : setup.limit true = setup.totalTarget := rfl
    omega

end FastPort.Benchmark.MultiSession
