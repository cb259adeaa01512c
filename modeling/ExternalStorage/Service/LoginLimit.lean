import ExternalStorage.Library.FixedWindows
import ExternalStorage.Library.Runs
import Mathlib.Logic.Function.Basic

/-!
# Login attempts

The hook of `index.ts` that counts the login requests of an address, over any sequence of requests.
-/

namespace ExternalStorage.Service

open Library.FixedWindows Library.Runs

/-! ## The hook -/

/-- `req.url.split('?')[0]`. -/
def urlPath (url : String) : String := String.ofList (url.toList.takeWhile fun c => c ≠ '?')

/-- The map after a request, and whether the answer is 429; times are in milliseconds. -/
def limitLogin (loginAttempts : String → Option Bucket) (url ip : String) (now : Int) :
    (String → Option Bucket) × Bool :=
  if urlPath url ≠ "/api/v1/auth/login" then
    (loginAttempts, false)
  else
    let bucket := hit 60000 now (loginAttempts ip)
    (Function.update loginAttempts ip (some bucket), bucket.count > 10)

structure LoginAttempts where
  now : Int
  loginAttempts : String → Option Bucket := fun _ => none
  /-- The times of the login requests of an address: history, as are those let through. -/
  tried : String → List Int := fun _ => []
  admitted : String → List Int := fun _ => []

inductive LoginAction where
  | tick (elapsed : Nat)
  | request (url ip : String)
  deriving DecidableEq

def LoginAttempts.step (w : LoginAttempts) : LoginAction → Option LoginAttempts
  | .tick elapsed => some { w with now := w.now + elapsed }
  | .request url ip =>
      let (loginAttempts, limited) := limitLogin w.loginAttempts url ip w.now
      some { w with
        loginAttempts := loginAttempts
        tried := if urlPath url = "/api/v1/auth/login" then
          Function.update w.tried ip (w.tried ip ++ [w.now]) else w.tried
        admitted := if urlPath url = "/api/v1/auth/login" ∧ !limited then
          Function.update w.admitted ip (w.admitted ip ++ [w.now]) else w.admitted }

/-! ## One address -/

def LoginAttempts.track (w : LoginAttempts) (ip : String) : Track :=
  ⟨w.loginAttempts ip, w.tried ip, w.admitted ip⟩

section Step

variable {w v : LoginAttempts} {url ip : String}

theorem limitLogin_login {attempts : String → Option Bucket} {now : Int}
    (hurl : urlPath url = "/api/v1/auth/login") :
    limitLogin attempts url ip now =
      (Function.update attempts ip (some (hit 60000 now (attempts ip))),
        decide ((hit 60000 now (attempts ip)).count > 10)) :=
  if_neg (not_not.mpr hurl)

theorem limitLogin_other {attempts : String → Option Bucket} {now : Int}
    (hurl : urlPath url ≠ "/api/v1/auth/login") :
    limitLogin attempts url ip now = (attempts, false) :=
  if_pos hurl

theorem track_request (other : String) (h : w.step (.request url ip) = some v) :
    v.now = w.now ∧ v.track other =
      if urlPath url = "/api/v1/auth/login" ∧ other = ip then (w.track other).hit 10 60000 w.now
      else w.track other := by
  by_cases hurl : urlPath url = "/api/v1/auth/login"
  · simp only [LoginAttempts.step, limitLogin_login hurl, hurl, true_and, ↓reduceIte] at h ⊢
    cases h
    refine ⟨rfl, ?_⟩
    by_cases hother : other = ip
    · subst hother
      by_cases hpasses : (hit 60000 w.now (w.loginAttempts other)).count ≤ 10
      · simp [LoginAttempts.track, Track.hit, hpasses]
      · simp [LoginAttempts.track, Track.hit, hpasses]
    · rw [if_neg hother]
      unfold LoginAttempts.track
      congr 1
      · exact Function.update_of_ne hother _ _
      · exact Function.update_of_ne hother _ _
      · dsimp only
        split
        · exact Function.update_of_ne hother _ _
        · rfl
  · simp only [LoginAttempts.step, limitLogin_other hurl, hurl, false_and, ↓reduceIte] at h ⊢
    cases h
    exact ⟨rfl, rfl⟩

structure LoginInv (w : LoginAttempts) : Prop where
  tracks : ∀ ip, (w.track ip).Inv 10 60000
  past : ∀ ip, ∀ t ∈ w.tried ip, t ≤ w.now

theorem LoginInv.step {a : LoginAction} (h : LoginInv w) (hstep : w.step a = some v) :
    LoginInv v := by
  cases a with
  | tick elapsed =>
      cases hstep
      refine ⟨h.tracks, fun ip t ht => ?_⟩
      have hpast := h.past ip t ht
      change t ≤ w.now + elapsed
      omega
  | request url ip =>
      constructor
      · intro other
        rw [(track_request other hstep).2]
        split
        · exact (h.tracks other).hit (by decide) (by decide) (h.past other)
        · exact h.tracks other
      · intro other t ht
        obtain ⟨hnow, htrack⟩ := track_request other hstep
        have htried : v.tried other = (v.track other).hits := rfl
        rw [htried, htrack] at ht
        rw [hnow]
        split at ht
        · rcases List.mem_append.mp ht with hold | hnew
          · exact h.past other t hold
          · exact (List.mem_singleton.mp hnew).le
        · exact h.past other t ht

end Step

/-- In no minute are more than nineteen login requests of an address let through, and one is refused
only after ten of the same address in the minute before. -/
theorem login_attempts_limited {start w : LoginAttempts} {actions : List LoginAction}
    (hstart : ∀ ip, start.track ip = {}) (hrun : exec LoginAttempts.step start actions = some w) :
    (∀ ip first, within (w.admitted ip) first (first + 60000) ≤ 19) ∧
      ∀ url ip, (limitLogin w.loginAttempts url ip w.now).2 = true →
        10 ≤ since (w.tried ip) (w.now - 60000) := by
  have hinv : LoginInv w := by
    refine exec_invariant (C := fun _ _ _ => True) (fun _ _ _ h _ hstep => h.step hstep) ?_
      (everyStep_of_forall_mem fun _ _ => trivial) hrun
    constructor
    · intro ip
      rw [hstart ip]
      exact Track.inv_empty
    · intro ip t ht
      have hnone : start.tried ip = [] := congrArg Track.hits (hstart ip)
      rw [hnone] at ht
      cases ht
  constructor
  · intro ip first
    have := (hinv.tracks ip).spread (by decide) first
    simp only [LoginAttempts.track] at this
    omega
  · intro url ip hlimited
    refine Track.Inv.refused (by decide) (hinv.tracks ip) ?_
    unfold limitLogin at hlimited
    split at hlimited
    · cases hlimited
    · exact of_decide_eq_true hlimited

/-- Nine requests at the end of one window, ten at the beginning of the next, and one more. -/
def burst : List LoginAction :=
  .request "/api/v1/auth/login" "192.0.2.1" :: .tick 60000 ::
    (List.replicate 9 (.request "/api/v1/auth/login?next=" "192.0.2.1") ++
      .tick 1 :: List.replicate 11 (.request "/api/v1/auth/login" "192.0.2.1"))

theorem login_attempts_limited_burst :
    ∃ w, exec LoginAttempts.step { now := 0 } burst = some w ∧
      within (w.admitted "192.0.2.1") 1 60001 = 19 ∧
      (limitLogin w.loginAttempts "/api/v1/auth/login" "192.0.2.1" w.now).2 = true ∧
      10 ≤ since (w.tried "192.0.2.1") (w.now - 60000) := by
  have hrun : exec LoginAttempts.step { now := 0 } burst = some _ := rfl
  have hlimited := (login_attempts_limited (fun _ => rfl) hrun).2 "/api/v1/auth/login" "192.0.2.1"
    (by decide +kernel)
  exact ⟨_, hrun, by decide +kernel, by decide +kernel, hlimited⟩

end ExternalStorage.Service
