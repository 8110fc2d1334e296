import Afly.Gateway.Outcomes
import Afly.Gateway.Step

/-! # The time a credential is valid

A command that installs a credential has the first and the last second of its
validity. Where the gateway chooses them itself they start now, or a minute ago,
and last for ten years or four minutes more. The end is an `int`: ten years
before the clock itself overflows it is a time in the past.
-/

namespace Afly

open World

/-- The first second of a credential and the one that ends it. -/
def NxpCmd.window : NxpCmd → Option (ℤ × ℤ)
  | .addPassword _ _ _ _ startTime endTime _ _ => some (startTime, endTime)
  | _ => none

def World.windows (w : World) : List (ℤ × ℤ) := w.sent.filterMap NxpCmd.window

/-- How long before the present a window starts that the gateway chooses for an event, and how long
after the present it ends. A request for a password has neither a start nor an end of its own. -/
def Op.window (env : Env) : Op → Option (ℤ × ℤ)
  | .addKey _ input => (env.jsonLoads input).bind fun jin =>
      if jsonGetInt jin "Start" (-1) = -1 ∧ jsonGetInt jin "End" (-1) = -1 then some (0, validity)
      else none
  | .getDynamic _ | .nxpReg _ => some (0, validity)
  | .oneKeyOpen _ => some (60, 60 * 4)
  | _ => none

/-- At this time, every window that the gateway chooses and sends includes the present. -/
def WindowsOpen (t : ℤ) : Prop :=
  ∀ (env : Env) (w w' : World) (op : Op) (lead length start stop : ℤ), (∀ k, env.time k = t) →
    op.window env = some (lead, length) → w.step (env, op) = some w' →
    (start, stop) ∈ w'.windows.drop w.windows.length → start ≤ t ∧ t < stop

section Windows

variable {env : Env} {w w' w'' : World} {i : Slot} {p : ℤ × ℤ} {lead length start stop t : ℤ}

/-- The windows that are sent between two states are all the same one. -/
def OnlyWindow (p : ℤ × ℤ) (w w' : World) : Prop :=
  ∃ n, w'.windows = w.windows ++ List.replicate n p

theorem OnlyWindow.of_sent (h : w'.sent = w.sent) : OnlyWindow p w w' :=
  ⟨0, by simp [windows, h]⟩

theorem OnlyWindow.of_command {cmd : NxpCmd} (h : w'.sent = w.sent ++ [cmd])
    (hcmd : ∀ q, cmd.window = some q → q = p) : OnlyWindow p w w' := by
  cases hc : cmd.window with
  | none => exact ⟨0, by simp [windows, h, hc]⟩
  | some q =>
    obtain rfl := hcmd q hc
    exact ⟨1, by simp [windows, h, hc]⟩

theorem OnlyWindow.trans (h : OnlyWindow p w w') (h' : OnlyWindow p w' w'') :
    OnlyWindow p w w'' := by
  obtain ⟨n, hn⟩ := h
  obtain ⟨m, hm⟩ := h'
  exact ⟨n + m, by rw [hm, hn, List.append_assoc, List.replicate_append_replicate]⟩

theorem OnlyWindow.eq_of_mem {q : ℤ × ℤ} (h : OnlyWindow p w w')
    (hq : q ∈ w'.windows.drop w.windows.length) : q = p := by
  obtain ⟨n, hn⟩ := h
  rw [hn, List.drop_left] at hq
  exact List.eq_of_mem_replicate hq

theorem dynamicCommand_window (ht : ∀ k, env.time k = t) (mac : CStr) (q : ℤ × ℤ)
    (h : (dynamicCommand env mac).window = some q) : q = (int32 (t - 0), int32 (t + validity)) := by
  cases h
  rw [ht, ht, sub_zero]

theorem addKeyRequest_window {input : CStr} {req : AddKeyReq} (ht : ∀ k, env.time k = t)
    (hw : (Op.addKey i input).window env = some (lead, length))
    (hr : addKeyRequest env input = some (.ok req)) :
    req.start = int32 (t - lead) ∧ req.stop = int32 (t + length) := by
  obtain ⟨jin, hjin, hw⟩ := Option.bind_eq_some_iff.mp hw
  split_ifs at hw with hchosen
  cases hw
  unfold addKeyRequest at hr
  rw [hjin] at hr
  dsimp only at hr
  split at hr
  · split at hr
    · obtain ⟨keyStr, -, he⟩ := Option.map_eq_some_iff.mp hr
      split at he
      · split at he
        · cases he
        · cases he
          rw [if_pos hchosen.1, if_pos hchosen.2, ht, ht, sub_zero]
          exact ⟨rfl, rfl⟩
      · cases he
    · cases hr
  · cases hr

theorem subdevAddKey_window {input : CStr} {ret : ℤ} (ht : ∀ k, env.time k = t)
    (hw : (Op.addKey i input).window env = some (lead, length))
    (h : w.subdevAddKey env i input = some (w', ret)) :
    OnlyWindow (int32 (t - lead), int32 (t + length)) w w' := by
  obtain ⟨r, hr, -⟩ := Option.map_eq_some_iff.mp h
  cases r with
  | error ret' =>
    cases h.symm.trans (subdevAddKey_refused hr)
    exact .of_sent rfl
  | ok req =>
    cases hj : firstNone (w.subdevs i) 2 with
    | none =>
      cases h.symm.trans (subdevAddKey_noRoom hr hj)
      exact .of_sent rfl
    | some j =>
      cases h.symm.trans (subdevAddKey_fills hr hj)
      have hreq := addKeyRequest_window ht hw hr
      have hcmd (q : ℤ × ℤ)
          (hq : (addKeyCommand (w.subdevs i).deviceName (keyId 2 req.keyStr) req).window = some q) :
          q = (int32 (t - lead), int32 (t + length)) := by
        unfold addKeyCommand at hq
        split at hq <;> (cases hq; rw [hreq.1, hreq.2])
      exact .of_command rfl hcmd

theorem registerRecord_window {r : NxpReg} {found : Option Slot}
    (h : w.registerRecord env r = some (w', found)) : OnlyWindow p w w' := by
  unfold registerRecord at h
  split at h
  · cases h
    exact .of_sent rfl
  · split at h
    · cases h
      exact .of_command rfl (by rintro q ⟨⟩)
    · obtain ⟨⟨w₁, ret⟩, h₁, he⟩ := Option.map_eq_some_iff.mp h
      cases he
      rcases productSubAdd_cases h₁ with ⟨j, sd, -, -, rfl⟩ | ⟨-, -, rfl⟩ | ⟨j, sd, -, -, -, rfl⟩
      · exact .of_sent rfl
      · exact .of_sent rfl
      · exact .of_sent (by rw [productSubSave_sent, setDev_sent])

theorem aflyNxpReg_window {r : NxpReg} (ht : ∀ k, env.time k = t)
    (h : w.aflyNxpReg env r = some w') :
    OnlyWindow (int32 (t - 0), int32 (t + validity)) w w' := by
  rcases aflyNxpReg_cases h with ⟨found, h₁, -⟩ | ⟨w₁, k, w₂, h₁, -, hs, rfl⟩
  · exact registerRecord_window h₁
  · refine (registerRecord_window h₁).trans ?_
    obtain ⟨sd, -, -, -, hsent⟩ := storeReport_spec hs
    rw [openHandle_sent] at hsent
    split at hsent
    · exact .of_command (syncLogin_sent.trans hsent) (dynamicCommand_window ht _)
    · exact .of_sent (syncLogin_sent.trans hsent)

/-- The windows that one event sends are the one that the gateway chooses for it. -/
theorem step_window {op : Op} (ht : ∀ k, env.time k = t)
    (hw : op.window env = some (lead, length)) (h : w.step (env, op) = some w') :
    OnlyWindow (int32 (t - lead), int32 (t + length)) w w' := by
  cases op with
  | addKey i input =>
    rcases request_cases h with ⟨-, rfl⟩ | ⟨-, h⟩
    · exact .of_sent rfl
    · obtain ⟨⟨w₁, ret⟩, h₁, rfl⟩ := Option.map_eq_some_iff.mp h
      exact subdevAddKey_window ht hw h₁
  | getDynamic i =>
    cases hw
    rcases request_cases h with ⟨-, rfl⟩ | ⟨-, h⟩
    · exact .of_sent rfl
    · obtain ⟨⟨w₁, ret⟩, h₁, rfl⟩ := Option.map_eq_some_iff.mp h
      unfold subdevGetDynamic at h₁
      split_ifs at h₁ <;> cases h₁
      · exact .of_command (provision_sent ..) (dynamicCommand_window ht _)
      · exact .of_sent rfl
  | oneKeyOpen i =>
    cases hw
    rcases request_cases h with ⟨-, rfl⟩ | ⟨-, h⟩
    · exact .of_sent rfl
    · cases h
      have hcmd (q : ℤ × ℤ) (hq : (NxpCmd.addPassword (w.subdevs i).deviceName 888888 10 0
          (int32 (env.time 0 - 60)) (int32 (env.time 1 + 60 * 4)) 0 0).window = some q) :
          q = (int32 (t - 60), int32 (t + 60 * 4)) := by
        cases hq
        rw [ht, ht]
      exact .of_command rfl hcmd
  | nxpReg r =>
    cases hw
    exact aflyNxpReg_window ht h
  | _ => cases hw

theorem window_range {op : Op} (hw : op.window env = some (lead, length)) :
    0 ≤ lead ∧ lead ≤ 60 ∧ 0 < length ∧ length ≤ 315360000 := by
  cases op with
  | addKey i input =>
    obtain ⟨jin, -, hw⟩ := Option.bind_eq_some_iff.mp hw
    split_ifs at hw
    cases hw
    decide
  | getDynamic | nxpReg | oneKeyOpen => cases hw; decide
  | _ => cases hw

/-- A window that the gateway chooses includes the present exactly when its end is an `int`. -/
theorem window_open_iff (env : Env) (w w' : World) (op : Op) (t lead length start stop : ℤ)
    (h0 : 0 ≤ t) (hmax : t ≤ intMax) (ht : ∀ k, env.time k = t)
    (hw : op.window env = some (lead, length)) (h : w.step (env, op) = some w')
    (hsent : (start, stop) ∈ w'.windows.drop w.windows.length) :
    (start ≤ t ∧ t < stop) ↔ t + length ≤ intMax := by
  obtain ⟨hl0, hl, hlen0, hlen⟩ := window_range hw
  cases (step_window ht hw h).eq_of_mem hsent
  unfold intMax at hmax ⊢
  have hstart : int32 (t - lead) ≤ t := by
    rw [int32_eq_self (by unfold intMin; omega) (by unfold intMax; omega)]
    omega
  constructor
  · rintro ⟨-, hstop⟩
    by_contra hover
    -- the sum wraps around to a time before the present
    have hwrap : int32 (t + length) = t + length - 2 ^ 32 := by
      rw [int32, Int.bmod_eq_emod]
      split <;> omega
    omega
  · intro hle
    rw [int32_eq_self (by unfold intMin; omega) hle]
    exact ⟨hstart, by omega⟩

end Windows

def Env.atTime (t : ℤ) : Env := { Env.quiet with time := fun _ => t }

theorem getDynamic_sends (t : ℤ) : ∃ w',
    (single firstDevice).step (.atTime t, .getDynamic 0) = some w' ∧
    (int32 t, int32 (t + validity)) ∈ w'.windows.drop (single firstDevice).windows.length :=
  ⟨_, rfl, List.mem_singleton.mpr rfl⟩

/-- A dynamic password that a lock is asked for in 2027 is valid then. -/
theorem window_open_now : (int32 1800000000 ≤ 1800000000 ∧
    1800000000 < int32 (1800000000 + validity)) ↔ 1800000000 + validity ≤ intMax := by
  obtain ⟨w', hw, hsent⟩ := getDynamic_sends 1800000000
  exact window_open_iff (.atTime 1800000000) _ w' (.getDynamic 0) _ 0 _ _ _ (by decide) (by decide)
    (fun _ => rfl) rfl hw hsent

/-- In 2028 the end of ten years is in the past. -/
theorem window_closed_later : ¬ ∀ t, 0 ≤ t → t ≤ intMax → WindowsOpen t := by
  intro hall
  obtain ⟨w', hw, hsent⟩ := getDynamic_sends 1840000000
  have h := hall 1840000000 (by decide) (by decide) (.atTime 1840000000) _ w' (.getDynamic 0) 0
    validity _ _ (fun _ => rfl) rfl hw hsent
  exact absurd h.2 (by decide)

end Afly
