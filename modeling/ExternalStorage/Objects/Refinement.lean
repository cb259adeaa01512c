import ExternalStorage.Objects.Client

/-!
# The object store of a run, by requests

The snapshot machine puts an object in one step.  The client needs a request for each part and one
to complete the upload, any of which may be turned down or lost while other calls are at work on
the same bucket.  What a reader of the bucket sees of this is a step of the machine or nothing,
whatever the service does within its documentation.
-/

namespace ExternalStorage.Objects

open ExternalStorage.Model Library.ObjectStores Library.Runs
open Snapshot (DataPlane Store Task TaskPhase TaskOp taskStep verifyObject)

/-! ## Statements -/

/-- The phase of the machine's task that a phase of the call is in; none once it fails. -/
def PutPhase.task : PutPhase → Option TaskPhase
  | .heading => some .absent
  | .verifying => some .existingAtPut
  | .sizing | .putting | .creating | .reading .. | .sending .. | .completing .. => some .putting
  | .returned (.ok ()) => some .written
  | .aborting .. | .returned (.error _) => none

/-- What the machine does where the client takes one step: nothing, a step of the task, or a step
before the call fails. -/
def RefinesTask (d : DataPlane Octets) (file : FileEntry) (store store' : Store Octets)
    (phase phase' : PutPhase) : Prop :=
  match phase.task, phase'.task with
  | some p, some p' => p' = p ∧ store' = store ∨
      ∃ op, taskStep d store ⟨file, p⟩ op = some (.ok (⟨file, p'⟩, store'))
  | some p, none => store' = store ∨
      ∃ op t, taskStep d store ⟨file, p⟩ op = some (.ok (t, store'))
  | none, some _ => False
  | none, none => store' = store

/-- The call reads the file in parts. -/
def PutPhase.multipart : PutPhase → Bool
  | .creating | .reading .. | .sending .. | .completing .. | .aborting .. => true
  | _ => false

variable {β : Type}

/-- A step of a call refines the machine, and a multipart upload shows nothing of the file but all
of it, with the hash that was asked for. -/
def CallRefines (S : ObjectService β) (d : DataPlane Octets) (s : StoreClient β) (a : StoreAction)
    (t : StoreClient β) : Prop :=
  match a with
  | .call i _ => ∀ call ∈ s.calls[i]?, ∀ call' ∈ t.calls[i]?,
      RefinesTask d call.file (S.visible s.bucket) (S.visible t.bucket) call.phase call'.phase ∧
        (call.phase.multipart = true → S.visible t.bucket ≠ S.visible s.bucket →
          ∃ bytes, d.sha256Bytes bytes = call.file.sha256 ∧
            S.visible t.bucket = Function.update (S.visible s.bucket) call.key (some bytes))
  | _ => True

/-! ## The steps of a call -/

def PutPhase.upload : PutPhase → Option Nat
  | .reading id _ | .sending id _ _ | .completing id _ | .aborting id _ => some id
  | _ => none

/-- The parts that a call has sent, as long as it means to complete the upload. -/
def PutPhase.sent : PutPhase → Option (Nat × List Octets)
  | .reading id parts | .sending id parts _ | .completing id parts => some (id, parts)
  | _ => none

/-- Everything that `putStep` can do. -/
inductive PutStep (S : ObjectService β) (d : DataPlane Octets) (b : β) (call : PutCall) :
    β → PutPhase → Prop
  | found : call.phase = .heading → (S.object b call.key).isSome = true →
      PutStep S d b call b .verifying
  | absent {phase : PutPhase} : call.phase = .heading → (S.object b call.key).isSome = false →
      phase = .putting ∨ phase = .sizing ∧ call.file.symlinkTarget = none →
        PutStep S d b call b phase
  | verified : call.phase = .verifying → PutStep S d b call b (call.verified S d b)
  | sized {phase : PutPhase} : call.phase = .sizing → phase = .creating ∨ phase = .putting →
      PutStep S d b call b phase
  | put {bytes : Octets} {b' : β} {phase : PutPhase} : call.phase = .putting →
      S.putObject b call.key
        ⟨Task.putBody d ⟨call.file, .putting⟩ bytes, call.file.sha256⟩ = some b' →
          phase = .returned (.ok ()) ∨ (∃ e, phase = .returned (.error e)) →
            PutStep S d b call b' phase
  | created {id : Nat} {b' : β} {phase : PutPhase} : call.phase = .creating →
      S.createMultipartUpload b call.key call.file.sha256 = some (b', id) →
        phase = .reading id [] ∨ (∃ e, phase = .returned (.error e)) → PutStep S d b call b' phase
  | read {id : Nat} {parts : List Octets} {part : Octets} : call.phase = .reading id parts →
      PutStep S d b call b (.sending id parts part)
  | ended {id : Nat} {parts : List Octets} : call.phase = .reading id parts →
      d.sha256Bytes parts.flatten = call.file.sha256 → PutStep S d b call b (.completing id parts)
  | sent {id : Nat} {parts : List Octets} {part : Octets} {b' : β} {phase : PutPhase} :
      call.phase = .sending id parts part →
        S.uploadPart b call.key id (parts.length + 1) part = some b' →
          phase = .reading id (parts ++ [part]) ∨ (∃ e, phase = .aborting id e) →
            PutStep S d b call b' phase
  | completed {id : Nat} {parts : List Octets} {b' : β} {phase : PutPhase} :
      call.phase = .completing id parts →
        S.completeMultipartUpload b call.key id (List.range' 1 parts.length) = some b' →
          phase = .returned (.ok ()) ∨ (∃ e, phase = .aborting id e) → PutStep S d b call b' phase
  | aborted {id : Nat} {e e' : AppError} {b' : β} : call.phase = .aborting id e →
      S.abortMultipartUpload b call.key id = some b' →
        PutStep S d b call b' (.returned (.error e'))
  | dropped {id : Nat} {e : AppError} : call.phase.upload = some id →
      PutStep S d b call b (.aborting id e)
  | failed {e : AppError} : PutStep S d b call b (.returned (.error e))

section Deliver

variable {α : Type} {b b' : β} {delivery : Delivery} {next : α → PutPhase}
  {failed : AppError → PutPhase} {phase : PutPhase}

theorem deliver_cases {answer : Option (β × α)}
    (h : deliver b delivery answer next failed = (b', phase)) :
    b' = b ∧ (∃ e, phase = failed e) ∨
      ∃ a, answer = some (b', a) ∧ (phase = next a ∨ ∃ e, phase = failed e) := by
  cases delivery with
  | answered =>
      cases answer with
      | none =>
          cases h
          exact .inl ⟨rfl, _, rfl⟩
      | some r =>
          cases h
          exact .inr ⟨r.2, rfl, .inl rfl⟩
  | lostRequest text =>
      cases h
      exact .inl ⟨rfl, _, rfl⟩
  | lostReply text =>
      cases answer with
      | none =>
          cases h
          exact .inl ⟨rfl, _, rfl⟩
      | some r =>
          cases h
          exact .inr ⟨r.2, rfl, .inr ⟨_, rfl⟩⟩

/-- A request whose answer says no more than that it was taken. -/
theorem deliver_taken {answer : Option β} {next : Unit → PutPhase}
    (h : deliver b delivery (answer.map fun b' => (b', ())) next failed = (b', phase)) :
    b' = b ∧ (∃ e, phase = failed e) ∨
      answer = some b' ∧ (phase = next () ∨ ∃ e, phase = failed e) := by
  rcases deliver_cases h with hfailed | ⟨a, hanswer, hnext⟩
  · exact .inl hfailed
  · obtain ⟨b₁, htaken, hb⟩ := Option.map_eq_some_iff.mp hanswer
    cases hb
    exact .inr ⟨htaken, hnext⟩

end Deliver

theorem putStep_cases {S : ObjectService β} {d : DataPlane Octets} {cfg : MultipartConfig}
    {b b' : β} {call : PutCall} {op : PutOp} {phase : PutPhase}
    (h : putStep S d cfg b call op = some (b', phase)) : PutStep S d b call b' phase := by
  unfold putStep at h
  dsimp only at h
  split at h
  · rename_i hphase
    rcases deliver_cases (Option.some.inj h) with ⟨rfl, e, rfl⟩ | ⟨found, hanswer, rfl | ⟨e, rfl⟩⟩
    · exact .failed
    · obtain ⟨rfl, rfl⟩ := Prod.mk.inj (Option.some.inj hanswer)
      cases hfound : (S.object b call.key).isSome with
      | true => exact .found hphase hfound
      | false =>
          refine .absent hphase hfound ?_
          cases hlink : call.file.symlinkTarget with
          | none => exact .inr ⟨rfl, rfl⟩
          | some target => exact .inl rfl
    · obtain ⟨rfl, -⟩ := Prod.mk.inj (Option.some.inj hanswer)
      exact .failed
  · rename_i hphase
    cases h
    exact .verified hphase
  · cases h
    exact .failed
  · rename_i hphase
    cases h
    refine .sized hphase ?_
    split
    · exact .inl rfl
    · exact .inr rfl
  · cases h
    exact .failed
  · rename_i bytes delivery hphase
    rcases deliver_taken (Option.some.inj h) with ⟨rfl, e, rfl⟩ | ⟨htaken, hnext⟩
    · exact .failed
    · exact .put hphase htaken hnext
  · cases h
    exact .failed
  · rename_i delivery hphase
    rcases deliver_cases (Option.some.inj h) with ⟨rfl, e, rfl⟩ | ⟨id, hanswer, hnext⟩
    · exact .failed
    · exact .created hphase hanswer hnext
  · rename_i id parts hphase
    cases h
    split
    · rename_i hsum
      exact .ended hphase hsum
    · exact .dropped (by rw [hphase]; rfl)
  · rename_i id parts bytes hphase
    split at h
    · cases h
      exact .read hphase
    · cases h
  · rename_i hphase
    cases h
    exact .dropped (by rw [hphase]; rfl)
  · rename_i id parts part delivery hphase
    rcases deliver_taken (Option.some.inj h) with ⟨rfl, e, rfl⟩ | ⟨htaken, hnext⟩
    · exact .dropped (by rw [hphase]; rfl)
    · exact .sent hphase htaken hnext
  · rename_i id parts delivery hphase
    rcases deliver_taken (Option.some.inj h) with ⟨rfl, e, rfl⟩ | ⟨htaken, hnext⟩
    · exact .dropped (by rw [hphase]; rfl)
    · exact .completed hphase htaken hnext
  · rename_i id e delivery hphase
    rcases deliver_taken (Option.some.inj h) with ⟨rfl, e', rfl⟩ | ⟨htaken, rfl | ⟨e', rfl⟩⟩
    · exact .failed
    · exact .aborted hphase htaken
    · exact .aborted hphase htaken
  · cases h

/-! ## What a call relies on -/

def PutPhase.regular : PutPhase → Bool
  | .sizing => true
  | phase => phase.multipart

structure CallInv (S : ObjectService β) (d : DataPlane Octets) (b : β) (call : PutCall) :
    Prop where
  regular : call.phase.regular = true → call.file.symlinkTarget = none
  issued : ∀ id, call.phase.upload = some id → S.issued b id
  recorded : ∀ id parts, call.phase.sent = some (id, parts) →
    Holds S b id call.key call.file.sha256 parts
  digest : ∀ id parts, call.phase = .completing id parts →
    d.sha256Bytes parts.flatten = call.file.sha256

structure ClientInv (S : ObjectService β) (d : DataPlane Octets) (s : StoreClient β) : Prop where
  calls : ∀ (i : Nat) call, s.calls[i]? = some call → CallInv S d s.bucket call
  apart : ∀ (i j : Nat) call call' id, s.calls[i]? = some call → s.calls[j]? = some call' →
    call.phase.upload = some id → call'.phase.upload = some id → i = j

section Step

variable {S : ObjectService β} {d : DataPlane Octets} {b b' : β} {call : PutCall}
  {phase : PutPhase}

theorem upload_of_sent {id : Nat} {parts : List Octets} (h : phase.sent = some (id, parts)) :
    phase.upload = some id := by
  cases phase <;> cases h <;> rfl

theorem CallInv.spared {own : Option Nat} (h : CallInv S d b call) (hspares : Spares S b b' own)
    (hother : ∀ id, call.phase.upload = some id → own ≠ some id) : CallInv S d b' call :=
  ⟨h.regular, fun id hid => hspares.issued id (h.issued id hid),
    fun id parts hsent => (h.recorded id parts hsent).spared hspares
      (hother id (upload_of_sent hsent)),
    h.digest⟩

/-- What a step does to the uploads of the bucket. -/
theorem PutStep.spares (hS : Documented S) (h : PutStep S d b call b' phase) :
    Spares S b b' call.phase.upload := by
  cases h with
  | found | absent | verified | sized | read | ended | dropped | failed => exact spares_refl _
  | put _ htaken => exact (hS.putObject htaken).2.weaken _
  | created _ htaken =>
      obtain ⟨-, -, -, hspares, -⟩ := hS.createMultipartUpload htaken
      exact hspares.weaken _
  | sent hphase htaken =>
      rw [hphase]
      exact (hS.uploadPart htaken).2.1
  | completed _ htaken =>
      obtain ⟨u, bodies, -, -, -, hspares⟩ := hS.completeMultipartUpload htaken
      exact hspares.weaken _
  | aborted _ htaken => exact (hS.abortMultipartUpload htaken).2.weaken _

theorem verified_returned (b : β) (call : PutCall) :
    ∃ result, call.verified S d b = .returned result := by
  unfold PutCall.verified
  split
  · exact ⟨_, rfl⟩
  · exact ⟨_, rfl⟩
  · exact ⟨_, rfl⟩

/-- An upload is the call's own or a new one. -/
theorem PutStep.upload (hS : Documented S) (h : PutStep S d b call b' phase) {id : Nat}
    (hid : phase.upload = some id) :
    call.phase.upload = some id ∨ ¬ S.issued b id ∧ S.issued b' id := by
  cases h with
  | found | failed | aborted => cases hid
  | absent _ _ hnext =>
      rcases hnext with rfl | ⟨rfl, -⟩
      all_goals cases hid
  | verified =>
      obtain ⟨result, hresult⟩ := verified_returned (S := S) (d := d) b call
      rw [hresult] at hid
      cases hid
  | sized _ hnext =>
      rcases hnext with rfl | rfl
      all_goals cases hid
  | put _ _ hnext =>
      rcases hnext with rfl | ⟨e, rfl⟩
      all_goals cases hid
  | created _ htaken hnext =>
      obtain ⟨-, hfresh, hissued, -, -⟩ := hS.createMultipartUpload htaken
      rcases hnext with rfl | ⟨e, rfl⟩
      · cases hid
        exact .inr ⟨hfresh, hissued⟩
      · cases hid
  | read hphase | ended hphase =>
      rw [hphase]
      exact .inl hid
  | sent hphase _ hnext =>
      rw [hphase]
      rcases hnext with rfl | ⟨e, rfl⟩
      all_goals exact .inl hid
  | completed hphase _ hnext =>
      rw [hphase]
      rcases hnext with rfl | ⟨e, rfl⟩
      · cases hid
      · exact .inl hid
  | dropped hphase =>
      rw [hphase]
      exact .inl hid

/-- A call that relies on nothing. -/
theorem callInv_idle (hregular : phase.regular = true → call.file.symlinkTarget = none)
    (hsent : phase.sent = none) (hissued : ∀ id, phase.upload = some id → S.issued b id) :
    CallInv S d b (call.at phase) := by
  refine ⟨hregular, hissued, ?_, ?_⟩
  · intro id parts h
    have h : phase.sent = some (id, parts) := h
    rw [hsent] at h
    cases h
  · rintro id parts rfl
    cases hsent

theorem CallInv.step (hS : Documented S) (hcall : CallInv S d b call)
    (h : PutStep S d b call b' phase) : CallInv S d b' (call.at phase) := by
  have hissued : ∀ id, phase.upload = some id → S.issued b' id := by
    intro id hid
    rcases h.upload hS hid with hown | ⟨-, hnew⟩
    · exact (h.spares hS).issued id (hcall.issued id hown)
    · exact hnew
  cases h with
  | found | failed | aborted => exact callInv_idle (fun h => by cases h) rfl hissued
  | absent hphase _ hnext =>
      rcases hnext with rfl | ⟨rfl, hlink⟩
      · exact callInv_idle (fun h => by cases h) rfl hissued
      · exact callInv_idle (fun _ => hlink) rfl hissued
  | verified =>
      obtain ⟨result, hresult⟩ := verified_returned (S := S) (d := d) b call
      rw [hresult] at hissued ⊢
      exact callInv_idle (fun h => by cases h) rfl hissued
  | sized hphase hnext =>
      have hlink := hcall.regular (by rw [hphase]; rfl)
      rcases hnext with rfl | rfl
      all_goals exact callInv_idle (fun _ => hlink) rfl hissued
  | put hphase _ hnext =>
      rcases hnext with rfl | ⟨e, rfl⟩
      all_goals exact callInv_idle (fun h => by cases h) rfl hissued
  | created hphase htaken hnext =>
      have hlink := hcall.regular (by rw [hphase]; rfl)
      rcases hnext with rfl | ⟨e, rfl⟩
      · refine ⟨fun _ => hlink, hissued, ?_, by rintro id parts ⟨⟩⟩
        rintro id parts ⟨⟩
        exact holds_create hS htaken
      · exact callInv_idle (fun h => by cases h) rfl hissued
  | read hphase =>
      have hlink := hcall.regular (by rw [hphase]; rfl)
      refine ⟨fun _ => hlink, hissued, ?_, by rintro id parts ⟨⟩⟩
      rintro id parts ⟨⟩
      exact hcall.recorded _ _ (by rw [hphase]; rfl)
  | ended hphase hsum =>
      have hlink := hcall.regular (by rw [hphase]; rfl)
      refine ⟨fun _ => hlink, hissued, ?_, ?_⟩
      · rintro id parts ⟨⟩
        exact hcall.recorded _ _ (by rw [hphase]; rfl)
      · rintro id parts ⟨⟩
        exact hsum
  | sent hphase htaken hnext =>
      have hlink := hcall.regular (by rw [hphase]; rfl)
      have hsent := hcall.recorded _ _ (by rw [hphase]; rfl)
      rcases hnext with rfl | ⟨e, rfl⟩
      · refine ⟨fun _ => hlink, hissued, ?_, by rintro id parts ⟨⟩⟩
        rintro id parts ⟨⟩
        exact hsent.part hS htaken
      · exact callInv_idle (fun _ => hlink) rfl hissued
  | completed hphase _ hnext =>
      have hlink := hcall.regular (by rw [hphase]; rfl)
      rcases hnext with rfl | ⟨e, rfl⟩
      all_goals exact callInv_idle (fun _ => hlink) rfl hissued
  | dropped hphase =>
      have hlink : call.file.symlinkTarget = none := by
        apply hcall.regular
        cases hcase : call.phase <;> rw [hcase] at hphase <;> first | rfl | cases hphase
      exact callInv_idle (fun _ => hlink) rfl hissued

end Step

/-! ## The machine -/

section Client

variable {S : ObjectService β} {d : DataPlane Octets} {cfg : MultipartConfig}
  {s t : StoreClient β}

/-- A change of the bucket that is nobody's. -/
theorem ClientInv.bucket (h : ClientInv S d s) {b : β} (hspares : Spares S s.bucket b none) :
    ClientInv S d { s with bucket := b } :=
  ⟨fun i call hcall => (h.calls i call hcall).spared hspares (fun _ _ => by simp), h.apart⟩

theorem call_of_begin {calls : List PutCall} {call new : PutCall} {i : Nat}
    (h : (calls ++ [new])[i]? = some call) : calls[i]? = some call ∨ call = new := by
  rw [List.getElem?_append] at h
  split at h
  · exact .inl h
  · exact .inr (List.mem_singleton.mp (List.mem_of_getElem? h))

theorem clientInv_step (hS : Documented S) {a : StoreAction} (h : ClientInv S d s)
    (hstep : storeStep S d cfg s a = some t) :
    ClientInv S d t := by
  cases a with
  | begin file =>
      cases hstep
      refine ⟨?_, ?_⟩
      · intro i call hcall
        rcases call_of_begin hcall with hold | rfl
        · exact h.calls i call hold
        · have hidle : CallInv S d s.bucket (PutCall.at ⟨file, .heading⟩ .heading) :=
            callInv_idle (fun h => by cases h) rfl (fun _ h => by cases h)
          exact hidle
      · intro i j call call' id hi hj hid hid'
        rcases call_of_begin hi with hi | rfl
        · rcases call_of_begin hj with hj | rfl
          · exact h.apart i j call call' id hi hj hid hid'
          · cases hid'
        · cases hid
  | call i op =>
      obtain ⟨call, hcall, hstep⟩ := Option.bind_eq_some_iff.mp hstep
      obtain ⟨⟨b, phase⟩, hput, rfl⟩ := Option.map_eq_some_iff.mp hstep
      have hputs := putStep_cases hput
      have hlt : i < s.calls.length := (List.getElem?_eq_some_iff.mp hcall).1
      have hset : ∀ j, (s.calls.set i (call.at phase))[j]? =
          if i = j then some (call.at phase) else s.calls[j]? := by
        intro j
        rw [List.getElem?_set]
        split
        · simp only
        · rfl
      -- an upload of the call is none of another's
      have hother : ∀ j call' id, j ≠ i → s.calls[j]? = some call' → call'.phase.upload = some id →
          phase.upload ≠ some id ∧ call.phase.upload ≠ some id := by
        intro j call' id hj hcall' hid'
        have hown : call.phase.upload ≠ some id := fun hid =>
          hj (h.apart j i call' call id hcall' hcall hid' hid)
        refine ⟨fun hid => ?_, hown⟩
        rcases hputs.upload hS hid with hid | ⟨hfresh, -⟩
        · exact hown hid
        · exact hfresh ((h.calls j call' hcall').issued id hid')
      refine ⟨?_, ?_⟩
      · intro j call' hcall'
        rw [hset] at hcall'
        split at hcall'
        · cases hcall'
          exact (h.calls i call hcall).step hS hputs
        · rename_i hij
          exact (h.calls j call' hcall').spared (hputs.spares hS) fun id hid =>
            (hother j call' id (Ne.symm hij) hcall' hid).2
      · intro j k call₁ call₂ id hj hk hid₁ hid₂
        rw [hset] at hj hk
        split at hj
        · rename_i hij
          split at hk
          · rename_i hik
            exact hij.symm.trans hik
          · rename_i hik
            cases hj
            exact absurd hid₁ (hother k call₂ id (Ne.symm hik) hk hid₂).1
        · rename_i hij
          split at hk
          · cases hk
            exact absurd hid₂ (hother j call₁ id (Ne.symm hij) hj hid₁).1
          · exact h.apart j k call₁ call₂ id hj hk hid₁ hid₂
  | delete key =>
      obtain ⟨b, htaken, rfl⟩ := Option.map_eq_some_iff.mp hstep
      exact h.bucket (hS.deleteObject htaken).2
  | overwrite key object =>
      obtain ⟨b, htaken, rfl⟩ := Option.map_eq_some_iff.mp hstep
      exact h.bucket (hS.putObject htaken).2
  | expire id =>
      cases hstep
      exact h.bucket (hS.expire s.bucket id).2

section Refines

variable {file : FileEntry} {store store' : Store Octets} {phase phase' : PutPhase} {p : TaskPhase}

theorem refines_stutter (hfails : phase.task = none → phase'.task = none)
    (hsame : ∀ p p', phase.task = some p → phase'.task = some p' → p' = p) :
    RefinesTask d file store store phase phase' := by
  unfold RefinesTask
  cases hphase : phase.task with
  | none => rw [hfails hphase]
  | some p =>
      cases hnext : phase'.task with
      | none => exact .inl rfl
      | some p' => exact .inl ⟨hsame p p' hphase hnext, rfl⟩

theorem refines_op {op : TaskOp Octets} {t : Task} (hphase : phase.task = some p)
    (hop : taskStep d store ⟨file, p⟩ op = some (.ok (t, store')))
    (hnext : ∀ p', phase'.task = some p' → t = ⟨file, p'⟩) :
    RefinesTask d file store store' phase phase' := by
  unfold RefinesTask
  rw [hphase]
  cases htask : phase'.task with
  | none => exact .inr ⟨op, t, hop⟩
  | some p' => exact .inr ⟨op, hnext p' htask ▸ hop⟩

theorem taskStep_absent (store : Store Octets) (file : FileEntry) :
    taskStep d store ⟨file, .absent⟩ .next = some (.ok (⟨file,
      if (store (objectKeyForSha256 file.sha256)).isSome then .existingAtPut else .putting⟩,
      store)) := rfl

theorem taskStep_putting (store : Store Octets) (file : FileEntry) (body : Octets) :
    taskStep d store ⟨file, .putting⟩ (.write body) = some (.ok (⟨file, .written⟩,
      Function.update store (objectKeyForSha256 file.sha256)
        (some (Task.putBody d ⟨file, .putting⟩ body)))) := rfl

/-- The parts that the bucket has are those that were read, and their hash was checked. -/
theorem complete_visible (hS : Documented S) {b b' : β} {call : PutCall}
    (hcall : CallInv S d b call) {id : Nat} {parts : List Octets}
    (hphase : call.phase = .completing id parts)
    (htaken : S.completeMultipartUpload b call.key id (List.range' 1 parts.length) = some b') :
    S.visible b' = Function.update (S.visible b) call.key (some parts.flatten) :=
  (hcall.recorded id parts (by rw [hphase]; rfl)).complete hS htaken

theorem PutStep.refines (hS : Documented S) {b b' : β} {call : PutCall}
    (hcall : CallInv S d b call) (h : PutStep S d b call b' phase) :
    RefinesTask d call.file (S.visible b) (S.visible b') call.phase phase := by
  have hseen : (S.visible b (objectKeyForSha256 call.file.sha256)).isSome =
      (S.object b call.key).isSome := by
    rw [Service.visible, Option.isSome_map]
    rfl
  cases h with
  | found hphase hobject =>
      refine refines_op (by rw [hphase]; rfl) (taskStep_absent (S.visible b) call.file) ?_
      rintro p' ⟨⟩
      rw [hseen, hobject, if_pos rfl]
  | absent hphase hobject hnext =>
      refine refines_op (by rw [hphase]; rfl) (taskStep_absent (S.visible b) call.file) ?_
      rw [hseen, hobject, if_neg (by simp)]
      rcases hnext with rfl | ⟨rfl, -⟩
      all_goals
        rintro p' ⟨⟩
        rfl
  | verified hphase =>
      unfold PutCall.verified
      cases hverify : verifyObject d (S.visible b) call.key call.file.sha256 with
      | error e =>
          apply refines_stutter
          · exact fun _ => rfl
          · rintro p p' - ⟨⟩
      | ok same =>
          cases same with
          | false =>
              apply refines_stutter
              · exact fun _ => rfl
              · rintro p p' - ⟨⟩
          | true =>
              have hop : taskStep d (S.visible b) ⟨call.file, .existingAtPut⟩ .next =
                  some (.ok (⟨call.file, .written⟩, S.visible b)) := by
                have hverify' : verifyObject d (S.visible b)
                    (Task.objectKey ⟨call.file, .existingAtPut⟩) call.file.sha256 = .ok true :=
                  hverify
                simp only [taskStep, Task.verified, hverify', bind, Except.bind, if_true]
                rfl
              refine refines_op (by rw [hphase]; rfl) hop ?_
              rintro p' ⟨⟩
              rfl
  | sized hphase hnext =>
      rw [hphase]
      rcases hnext with rfl | rfl
      all_goals exact .inl ⟨rfl, rfl⟩
  | @put bytes _ _ hphase htaken hnext =>
      rw [visible_update (hS.putObject htaken).1]
      refine refines_op (by rw [hphase]; rfl) (taskStep_putting (S.visible b) call.file bytes) ?_
      rcases hnext with rfl | ⟨e, rfl⟩
      · rintro p' ⟨⟩
        rfl
      · rintro p' ⟨⟩
  | created hphase htaken hnext =>
      rw [hphase, visible_eq (hS.createMultipartUpload htaken).1]
      rcases hnext with rfl | ⟨e, rfl⟩
      · exact .inl ⟨rfl, rfl⟩
      · exact .inl rfl
  | read hphase | ended hphase =>
      rw [hphase]
      exact .inl ⟨rfl, rfl⟩
  | sent hphase htaken hnext =>
      rw [hphase, visible_eq (hS.uploadPart htaken).1]
      rcases hnext with rfl | ⟨e, rfl⟩
      · exact .inl ⟨rfl, rfl⟩
      · exact .inl rfl
  | @completed id parts _ _ hphase htaken hnext =>
      have hlink : call.file.symlinkTarget = none := hcall.regular (by rw [hphase]; rfl)
      have hbody : Task.putBody d ⟨call.file, .putting⟩ parts.flatten = parts.flatten := by
        simp only [Task.putBody, hlink]
      have hop := taskStep_putting (d := d) (S.visible b) call.file parts.flatten
      rw [hbody] at hop
      rw [complete_visible hS hcall hphase htaken]
      refine refines_op (by rw [hphase]; rfl) hop ?_
      rcases hnext with rfl | ⟨e, rfl⟩
      · rintro p' ⟨⟩
        rfl
      · rintro p' ⟨⟩
  | aborted hphase htaken =>
      rw [hphase, visible_eq (hS.abortMultipartUpload htaken).1]
      rfl
  | dropped hphase =>
      apply refines_stutter
      · exact fun _ => rfl
      · rintro p p' - ⟨⟩
  | failed =>
      apply refines_stutter
      · exact fun _ => rfl
      · rintro p p' - ⟨⟩

/-- A multipart upload shows the whole file, when it is completed. -/
theorem PutStep.whole (hS : Documented S) {b b' : β} {call : PutCall}
    (hcall : CallInv S d b call) (h : PutStep S d b call b' phase)
    (hmultipart : call.phase.multipart = true) (hchanged : S.visible b' ≠ S.visible b) :
    ∃ bytes, d.sha256Bytes bytes = call.file.sha256 ∧
      S.visible b' = Function.update (S.visible b) call.key (some bytes) := by
  cases h with
  | found | absent | verified | sized | read | ended | dropped | failed =>
      exact absurd rfl hchanged
  | put hphase =>
      rw [hphase] at hmultipart
      cases hmultipart
  | created _ htaken => exact absurd (visible_eq (hS.createMultipartUpload htaken).1) hchanged
  | sent _ htaken => exact absurd (visible_eq (hS.uploadPart htaken).1) hchanged
  | aborted _ htaken => exact absurd (visible_eq (hS.abortMultipartUpload htaken).1) hchanged
  | completed hphase htaken =>
      exact ⟨_, hcall.digest _ _ hphase, complete_visible hS hcall hphase htaken⟩

end Refines

theorem callRefines_step (hS : Documented S) {a : StoreAction} (h : ClientInv S d s)
    (hstep : storeStep S d cfg s a = some t) :
    CallRefines S d s a t := by
  cases a with
  | begin | delete | overwrite | expire => trivial
  | call i op =>
      obtain ⟨call, hcall, hstep⟩ := Option.bind_eq_some_iff.mp hstep
      obtain ⟨⟨b, phase⟩, hput, rfl⟩ := Option.map_eq_some_iff.mp hstep
      have hputs := putStep_cases hput
      have hinv := h.calls i call hcall
      have hlt : i < s.calls.length := (List.getElem?_eq_some_iff.mp hcall).1
      intro call₀ hcall₀ call' hcall'
      obtain rfl : call = call₀ := Option.some.inj (hcall.symm.trans hcall₀)
      obtain rfl : call.at phase = call' := by
        have hset : (s.calls.set i (call.at phase))[i]? = some (call.at phase) := by simp [hlt]
        exact Option.some.inj (hset.symm.trans hcall')
      exact ⟨hputs.refines hS hinv, hputs.whole hS hinv⟩

/-- However many calls share a bucket and whatever the service does with their requests, each step
of a call is one of the snapshot machine's task or none, and a multipart upload is seen as a whole
or not at all. -/
theorem calls_refine_tasks (hS : Documented S) {actions : List StoreAction} (h : s.calls = []) :
    EveryStep (storeStep S d cfg) (CallRefines S d) s actions := by
  refine everyStep_of_invariant (I := ClientInv S d) (C := fun _ _ _ => True)
    (fun s a t hs _ hstep => clientInv_step hS hs hstep)
    (fun s a t hs _ hstep => callRefines_step hS hs hstep) ⟨?_, ?_⟩
    (everyStep_of_forall_mem fun _ _ => trivial)
  · intro i call hcall
    rw [h] at hcall
    cases hcall
  · intro i j call call' id hcall
    rw [h] at hcall
    cases hcall

end Client

/-! ## Two uploads of one file -/

structure Bucket where
  objects : String → Option (Object UInt8 String)
  uploads : Nat → Option (Upload String UInt8 String)
  nextId : Nat

/-- A service that takes every request of an upload in progress, with at most 10000 parts, of which
all but the last have 5 MiB or more. -/
def bucketService : ObjectService Bucket where
  object b := b.objects
  upload b := b.uploads
  issued b id := id < b.nextId
  putObject b key object := some { b with objects := Function.update b.objects key (some object) }
  deleteObject b key := some { b with objects := Function.update b.objects key none }
  createMultipartUpload b key metadata :=
    some ({ b with
      uploads := Function.update b.uploads b.nextId (some ⟨key, metadata, fun _ => none⟩)
      nextId := b.nextId + 1 }, b.nextId)
  uploadPart b key id number body :=
    (b.uploads id).bind fun u =>
      if u.key = key ∧ 1 ≤ number ∧ number ≤ 10000 then
        let u' := { u with parts := Function.update u.parts number (some body) }
        some { b with uploads := Function.update b.uploads id (some u') }
      else none
  completeMultipartUpload b key id numbers :=
    (b.uploads id).bind fun u => (numbers.mapM u.parts).bind fun bodies =>
      if u.key = key ∧ numbers ≠ [] ∧ ∀ body ∈ bodies.dropLast, 5 * 1024 * 1024 ≤ body.length then
        some { b with
          objects := Function.update b.objects key (some ⟨bodies.flatten, u.metadata⟩)
          uploads := Function.update b.uploads id none }
      else none
  abortMultipartUpload b _ id :=
    (b.uploads id).map fun _ => { b with uploads := Function.update b.uploads id none }
  expire b id := { b with uploads := Function.update b.uploads id none }

theorem bucket_spares {b b' : Bucket} {id : Nat} {own : Option Nat} {entry}
    (huploads : b'.uploads = Function.update b.uploads id entry) (hnext : b.nextId ≤ b'.nextId)
    (hentry : entry = none ∨ own = some id ∨ b.nextId ≤ id) : Spares bucketService b b' own := by
  refine ⟨fun other hother => Nat.lt_of_lt_of_le hother hnext, ?_⟩
  intro other hother hown u hu
  have hu : b'.uploads other = some u := hu
  rw [huploads] at hu
  by_cases hsame : other = id
  · rw [hsame, Function.update_self] at hu
    rcases hentry with rfl | rfl | hle
    · cases hu
    · exact absurd (congrArg some hsame.symm) hown
    · have hother : other < b.nextId := hother
      omega
  · rwa [Function.update_of_ne hsame] at hu

theorem documented_bucket : Documented bucketService where
  putObject := by
    rintro b b' key o ⟨⟩
    exact ⟨rfl, fun _ h => h, fun _ _ _ _ h => h⟩
  deleteObject := by
    rintro b b' key ⟨⟩
    exact ⟨rfl, fun _ h => h, fun _ _ _ _ h => h⟩
  createMultipartUpload := by
    rintro b b' key metadata id ⟨⟩
    refine ⟨rfl, Nat.lt_irrefl _, Nat.lt_succ_self _,
      bucket_spares rfl (Nat.le_succ _) (.inr (.inr (Nat.le_refl _))), ?_⟩
    intro u hu
    have hu : Function.update b.uploads b.nextId _ b.nextId = some u := hu
    rw [Function.update_self] at hu
    exact (Option.some.inj hu).symm
  uploadPart := by
    intro b b' key id number body h
    obtain ⟨u, hu, h⟩ := Option.bind_eq_some_iff.mp h
    split at h
    · cases h
      refine ⟨rfl, bucket_spares rfl (Nat.le_refl _) (.inr (.inl rfl)), ?_⟩
      intro u' hu'
      have hu' : Function.update b.uploads id _ id = some u' := hu'
      rw [Function.update_self] at hu'
      exact ⟨u, hu, (Option.some.inj hu').symm⟩
    · cases h
  completeMultipartUpload := by
    intro b b' key id numbers h
    obtain ⟨u, hu, h⟩ := Option.bind_eq_some_iff.mp h
    obtain ⟨bodies, hbodies, h⟩ := Option.bind_eq_some_iff.mp h
    split at h
    · cases h
      exact ⟨u, bodies, hu, hbodies, rfl, bucket_spares rfl (Nat.le_refl _) (.inl rfl)⟩
    · cases h
  abortMultipartUpload := by
    intro b b' key id h
    obtain ⟨u, -, rfl⟩ := Option.map_eq_some_iff.mp h
    exact ⟨rfl, bucket_spares rfl (Nat.le_refl _) (.inl rfl)⟩
  expire b id := ⟨rfl, bucket_spares rfl (Nat.le_refl _) (.inl rfl)⟩

def octetPlane : DataPlane Octets where
  manifestToVec _ := []
  sha256Bytes bytes :=
    if bytes = [1, 2, 3] then "039058c6f2c0cb492c533b0a4d14ef77cc0f78abccced5287d84a1a2011cfb81"
    else ""
  textBytes text := text.toUTF8.toList
  maxConcurrentUploads := 4

def octetFile : FileEntry where
  path := "1.out"
  sha256 := "039058c6f2c0cb492c533b0a4d14ef77cc0f78abccced5287d84a1a2011cfb81"
  size := 3
  allocatedBytes := 4096
  dev := 1
  ino := 7
  nlink := 1
  mode := 420
  duplicateOf := none
  symlinkTarget := none

/-- The parts of call `i`, up to the request that completes its upload. -/
def octetUpload (i : Nat) : List StoreAction :=
  [.call i (.send .answered), .call i (.size 3), .call i (.send .answered),
    .call i (.chunk [1, 2, 3]), .call i (.send .answered), .call i (.chunk [])]

/-- Both uploads are completed, and the first call does not hear of it. -/
def octetUploads : List StoreAction :=
  [.begin octetFile, .begin octetFile] ++ octetUpload 0 ++
    [.call 1 (.send (.lostRequest "timeout")), .begin octetFile] ++ octetUpload 2 ++
    [.call 0 (.send (.lostReply "timeout")), .call 2 (.send .answered), .call 0 (.send .answered)]

def octetClient : StoreClient Bucket :=
  { bucket := { objects := fun _ => none, uploads := fun _ => none, nextId := 1 } }

theorem calls_refine_tasks_octets :
    ((exec (storeStep bucketService octetPlane (.new 3 0)) octetClient octetUploads).map fun s =>
      (s.calls.map fun call => call.phase.task,
        bucketService.visible s.bucket (objectKeyForSha256 octetFile.sha256))) =
          some ([none, none, some .written], some [1, 2, 3]) ∧
      EveryStep (storeStep bucketService octetPlane (.new 3 0))
        (CallRefines bucketService octetPlane) octetClient octetUploads :=
  ⟨by decide +kernel, calls_refine_tasks documented_bucket rfl⟩

end ExternalStorage.Objects
