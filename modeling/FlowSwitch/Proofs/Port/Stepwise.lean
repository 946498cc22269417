import FlowSwitch.Port.Table
import FlowSwitch.Proofs.Steps

/-!
# Changes of ports carried out step by step

Ports are added, taken away and set by checks and writes, and the device of a port may refuse to
go up or down. Each of these is told step by step and comes to what its function leaves: nothing
is checked after a write, and the device is asked before the settings are written.
-/

namespace FlowSwitch

theorem Registry.modify_modify {κ ν : Type} [DecidableEq κ] (r : Registry κ ν) (k : κ)
    (first rest : ν → ν) :
    (r.modify k first).modify k rest = r.modify k fun v => rest (first v) := by
  unfold modify
  rw [List.map_map]
  congr 1
  refine List.map_congr_left fun e _ => ?_
  by_cases here : e.1 = k <;> simp [here]

namespace PortTable

/-- What is checked before a port gets a number. -/
def checkAdd (t : PortTable) (port : PortNo) : Except SwitchError Unit := do
  if port > PortNo.last || t.contains port then throw (.portModFailed .badPort)

/-- Adding a port: a number is chosen and checked before it is taken. -/
def addSteps (port : PortNo) (d : Device) (queueLimit : Nat) (now : Time) :
    Steps PortTable PortNo := do
  let t ← get
  match if port = 0 then t.lowestFree? else some port with
  | none => throw .failed
  | some port =>
    Steps.check (t.checkAdd port)
    modify (·.insert port (SwitchPort.ofDevice (d.limitQueue queueLimit) now))
    return port

theorem addSteps_apply (port : PortNo) (d : Device) (queueLimit : Nat) (now : Time)
    (t : PortTable) :
    addSteps port d queueLimit now t = Steps.outcome t (t.add port d queueLimit now) := by
  unfold addSteps add
  rw [Steps.bind_apply, Steps.get_apply]
  dsimp only
  cases if port = 0 then t.lowestFree? else some port with
  | none => rfl
  | some port =>
    simp only [checkAdd]
    cases decide (port > PortNo.last) || t.contains port <;> rfl

/-- Taking a port away. -/
def deleteSteps (port : PortNo) : Steps PortTable SwitchPort := do
  let t ← get
  match t.get? port with
  | none => throw .invalidParameter
  | some p =>
    modify (·.erase port)
    return p

theorem deleteSteps_apply (port : PortNo) (t : PortTable) :
    deleteSteps port t = Steps.outcome t (t.delete port) := by
  unfold deleteSteps delete
  rw [Steps.bind_apply, Steps.get_apply]
  dsimp only
  cases t.get? port <;> rfl

/-- Changing the settings of a port: the device goes up or down first, if it has to, and the
settings are written once that worked. -/
def configureSteps (port : PortNo) (config mask : BitVec 32) : Steps PortTable Unit := do
  let t ← get
  match t.get? port with
  | none => throw (.portModFailed .badPort)
  | some p =>
    match PortConfig.ofBits? config, PortConfig.ofBits? mask with
    | some new, some mask =>
      let config := p.config.replace new mask
      if config.down = p.config.down then modify (·.modify port fun _ => { p with config })
      else
        match p.device.setUp? (!config.down) with
        | none => throw (.portModFailed .badConfig)
        | some device =>
          modify (·.modify port fun _ => { p with device })
          modify (·.modify port fun p => { p with config })
    | _, _ => throw (.portModFailed .badConfig)

theorem configureSteps_apply (port : PortNo) (config mask : BitVec 32) (t : PortTable) :
    configureSteps port config mask t
      = Steps.outcome t ((t.configure port config mask).map fun t' => ((), t')) := by
  unfold configureSteps configure
  rw [Steps.bind_apply, Steps.get_apply]
  dsimp only
  cases t.get? port with
  | none => rfl
  | some p =>
    dsimp only
    unfold SwitchPort.configure
    cases PortConfig.ofBits? config with
    | none => rfl
    | some new =>
      cases PortConfig.ofBits? mask with
      | none => rfl
      | some mask =>
        dsimp only
        split
        · rfl
        · cases p.device.setUp? (!(p.config.replace new mask).down) with
          | none => rfl
          | some device =>
            simp only [Steps.bind_apply, Steps.modify_apply, Registry.modify_modify]
            rfl

end PortTable

end FlowSwitch
