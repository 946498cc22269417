import FlowSwitch.Proofs.Flow.Instruction
import FlowSwitch.Proofs.Packet.Reach

/-!
# Splices in range

The actions that push and pop tags, and all others that change a frame, told by the places that
they read and write. A gap is opened inside the frame and filled, what is removed is there, and
the ethertype before a label stands two bytes before its recorded place. So on a frame that was
read no action is stopped, and the only refusal is that of a frame that gets too long.
-/

namespace FlowSwitch

namespace Strict

variable {d s : Bytes} {h : Headers} {n o : Nat}

/-- Opens a gap before the byte at `offset` and fills it. -/
def insert (d : Bytes) (offset : Nat) (s : Bytes) : Option (Except SpliceError Bytes) :=
  if d.length < offset then none else
    match d.openGap offset s.length with
    | .error e => some (.error e)
    | .ok gap => (gap.overwrite? offset s).map .ok

/-- Removes `n` bytes at `offset` that have to be there. -/
def remove (d : Bytes) (offset n : Nat) : Option Bytes :=
  if offset + n ≤ d.length then some (d.removeAt offset n) else none

/-- Writes an ethertype before the byte at `offset`. -/
def retype (offset : Nat) (etherType : BitVec 16) (d : Bytes) : Option Bytes := do
  let place ← before offset 2
  d.overwrite? place (Bytes.ofWord 2 etherType)

/-! ## Tags -/

def pushVlan (tpid : BitVec 16) (h : Headers) (d : Bytes) :
    Option (Except SpliceError (Option Bytes)) :=
  let tci := (h.vlan.map (·.tci)).getD 0
  (insert d 12 (Bytes.ofWord 2 tpid ++ Bytes.ofWord 2 tci)).map (·.map some)

def popVlan (h : Headers) (d : Bytes) : Option (Except SpliceError (Option Bytes)) :=
  match h.vlan with
  | some tag => (remove d tag.offset 4).map fun d => .ok (some d)
  | none => some (.ok none)

def newLabel (h : Headers) (d : Bytes) : Option (Nat × BitVec 32) :=
  match h.mpls with
  | some top => do
    let entry ← d.word? 4 top.offset
    return (top.offset, entry &&& ~~~0x100)
  | none => some (h.payload.getD d.length, 0x100 ||| (Tagging.ipTtl h).setWidth 32)

def pushMpls (etherType : BitVec 16) (h : Headers) (d : Bytes) :
    Option (Except SpliceError (Option Bytes)) := do
  let (offset, entry) ← newLabel h d
  match ← insert d offset (Bytes.ofWord 4 entry) with
  | .error e => return .error e
  | .ok d => return .ok (some (← retype offset etherType d))

def popMpls (etherType : BitVec 16) (h : Headers) (d : Bytes) :
    Option (Except SpliceError (Option Bytes)) :=
  match h.mpls with
  | some top => do
    let d ← remove d top.offset 4
    return .ok (some (← retype top.offset etherType d))
  | none => some (.ok none)

def pushPbb (etherType : BitVec 16) (h : Headers) (d : Bytes) :
    Option (Except SpliceError (Option Bytes)) := do
  let isid := (h.pbb.map (·.isid)).getD 0
  let pcp := (h.vlan.map (·.pcp)).getD 0
  let tag := (pcp.setWidth 32 <<< 29) ||| isid
  let customer ← d.slice? 0 12
  let pushed ← insert d 12 (Bytes.ofWord 2 etherType ++ Bytes.ofWord 4 tag ++ customer)
  return pushed.map some

def popPbb (h : Headers) (d : Bytes) : Option (Except SpliceError (Option Bytes)) :=
  match h.pbb with
  | some tag => (remove d 0 (tag.offset + 4)).map fun d => .ok (some d)
  | none => some (.ok none)

/-- A stack that is cut short has no second label. -/
def copyTtlOut (h : Headers) (d : Bytes) : Option (Except SpliceError (Option Bytes)) :=
  match h.mpls with
  | none => some (.ok none)
  | some top =>
    let ttl : Option (BitVec 8) :=
      match Tagging.secondLabelTtl? top with
      | some offset => d[offset]?.map (·.toBitVec)
      | none => h.ip?.map (·.ttl)
    match ttl with
    | some ttl => (setMplsTtl h ttl d).map fun d => .ok (some d)
    | none => some (.ok none)

/-- A stack that is cut short has no second label. -/
def copyTtlIn (h : Headers) (d : Bytes) : Option (Except SpliceError (Option Bytes)) :=
  match h.mpls with
  | none => some (.ok none)
  | some top =>
    match Tagging.secondLabelTtl? top with
    | some offset =>
      if offset < d.length then
        (d.overwrite? offset (Bytes.ofWord 1 top.ttl)).map fun d => .ok (some d)
      else some (.ok (some d))
    | none =>
      match h.ip? with
      | some _ => (setIpTtl h top.ttl d).map fun d => .ok (some d)
      | none => some (.ok none)

/-! ## No tag is stopped -/

theorem insert_eq (inside : o ≤ d.length) (s : Bytes) : insert d o s = some (d.insert o s) := by
  rw [insert, if_neg (Nat.not_lt.mpr inside), Bytes.openGap, Bytes.insert]
  cases d.checkInsert o s.length with
  | error e => rfl
  | ok _ =>
    have at_ : (d.take o).length = o := List.length_take_of_le inside
    have filled : (d.insertAt o (List.replicate s.length 0)).overwrite o s = d.insertAt o s :=
      Bytes.overwrite_middle at_ (by simp)
    have fits : o + s.length ≤ (d.insertAt o (List.replicate s.length 0)).length := by
      rw [Bytes.length_insertAt, List.length_replicate]
      omega
    simp only [Except.map, Bytes.overwrite?_of_fits fits, filled, Option.map_some]

theorem remove_eq (inside : o + n ≤ d.length) : remove d o n = some (d.removeAt o n) :=
  if_pos inside

theorem retype_eq (behind : 2 ≤ o) (inside : o ≤ d.length) (etherType : BitVec 16) :
    retype o etherType d = some (d.overwrite (o - 2) (Bytes.ofWord 2 etherType)) := by
  rw [retype, before_of_le behind]
  exact Bytes.overwrite?_of_fits (by rw [Bytes.length_ofWord]; omega)

section

variable (laid : h.Laid d)
include laid

theorem pushVlan_eq (tpid : BitVec 16) :
    pushVlan tpid h d = some (Tagging.pushVlan tpid h d) := by
  have long := laid.reaches.ethernet
  rw [pushVlan, insert_eq (by omega)]
  rfl

theorem popVlan_eq : popVlan h d = some (Tagging.popVlan h d) := by
  unfold popVlan Tagging.popVlan
  cases is : h.vlan with
  | none => rfl
  | some tag =>
    have fits := (laid.reaches.vlan tag is).2
    dsimp only
    rw [remove_eq (by omega), Bytes.remove_of_inside (by omega)]
    rfl

theorem newLabel_eq : newLabel h d = some (Tagging.newLabel h d) := by
  unfold newLabel Tagging.newLabel
  cases is : h.mpls with
  | none => rfl
  | some top =>
    dsimp only
    rw [Bytes.word?_eq_word (laid.reaches.mpls top is).2]
    rfl

/-- A new label has an ethertype before it. -/
theorem newLabel_inside :
    14 ≤ (Tagging.newLabel h d).1 ∧ (Tagging.newLabel h d).1 ≤ d.length := by
  have reaches := laid.reaches
  unfold Tagging.newLabel
  cases is : h.mpls with
  | some top =>
    have fits := reaches.mpls top is
    exact ⟨fits.1, by dsimp only; omega⟩
  | none =>
    cases at_ : h.payload with
    | some p => exact reaches.payload p at_
    | none => exact ⟨reaches.ethernet, Nat.le_refl _⟩

theorem pushMpls_eq (etherType : BitVec 16) :
    pushMpls etherType h d = some (Tagging.pushMpls etherType h d) := by
  obtain ⟨behind, inside⟩ := newLabel_inside laid
  rw [pushMpls, newLabel_eq laid, Tagging.pushMpls]
  simp only [Option.bind_eq_bind, Option.bind_some]
  rw [insert_eq inside, Option.bind_some]
  cases pushed : d.insert (Tagging.newLabel h d).1 (Bytes.ofWord 4 (Tagging.newLabel h d).2) with
  | error e => rfl
  | ok d' =>
    have longer : d.length ≤ d'.length := by
      obtain ⟨_, -, rfl⟩ := map_eq_ok.mp pushed
      rw [Bytes.length_insertAt]
      exact Nat.le_add_right ..
    dsimp only
    rw [retype_eq (by omega) (by omega)]
    rfl

theorem popMpls_eq (etherType : BitVec 16) :
    popMpls etherType h d = some (Tagging.popMpls etherType h d) := by
  unfold popMpls Tagging.popMpls
  cases is : h.mpls with
  | none => rfl
  | some top =>
    have fits := laid.reaches.mpls top is
    have shorter : top.offset ≤ (d.removeAt top.offset 4).length := by
      rw [Bytes.removeAt, List.length_append, List.length_take]
      omega
    dsimp only
    rw [remove_eq (by omega), Bytes.remove_of_inside (by omega)]
    simp only [Option.bind_eq_bind, Option.bind_some]
    rw [retype_eq (by omega) shorter]
    rfl

theorem pushPbb_eq (etherType : BitVec 16) :
    pushPbb etherType h d = some (Tagging.pushPbb etherType h d) := by
  have long := laid.reaches.ethernet
  rw [pushPbb, Bytes.slice?_of_fits (by omega)]
  simp only [Option.bind_eq_bind, Option.bind_some]
  rw [insert_eq (by omega)]
  rfl

theorem popPbb_eq : popPbb h d = some (Tagging.popPbb h d) := by
  unfold popPbb Tagging.popPbb
  cases is : h.pbb with
  | none => rfl
  | some tag =>
    have fits := laid.reaches.pbb tag is
    dsimp only
    rw [remove_eq (by omega), Bytes.remove_of_inside (by omega)]
    rfl

theorem copyTtlOut_eq : copyTtlOut h d = some (Tagging.copyTtlOut h d) := by
  unfold copyTtlOut Tagging.copyTtlOut
  cases h.mpls with
  | none => rfl
  | some top =>
    have copied := setMplsTtl_eq laid.reaches rfl
    dsimp only
    cases Tagging.secondLabelTtl? top with
    | some offset =>
      dsimp only
      cases d[offset]? with
      | none => rfl
      | some ttl =>
        rw [Option.map_some]
        dsimp only
        rw [copied]
        rfl
    | none =>
      cases h.ip? with
      | none => rfl
      | some ip =>
        rw [Option.map_some]
        dsimp only
        rw [copied]
        rfl

theorem copyTtlIn_eq : copyTtlIn h d = some (Tagging.copyTtlIn h d) := by
  unfold copyTtlIn Tagging.copyTtlIn
  cases h.mpls with
  | none => rfl
  | some top =>
    dsimp only
    cases Tagging.secondLabelTtl? top with
    | some offset =>
      dsimp only
      split
      · next inside =>
        rw [Bytes.overwrite?_of_fits (by rw [Bytes.length_ofWord]; omega)]
        rfl
      · next past =>
        rw [Bytes.overwrite, Bytes.overwrite?, if_neg (by rw [Bytes.length_ofWord]; omega)]
        rfl
    | none =>
      cases h.ip? with
      | none => rfl
      | some ip =>
        dsimp only
        rw [setIpTtl_eq laid.reaches rfl]
        rfl

end

/-! ## Actions -/

/-- Edits a frame that has a view. -/
def edit (change : Headers → Bytes → Option (Except SpliceError (Option Bytes))) (f : Frame) :
    Option (Except SwitchError Unit × Frame) := do
  let h ← f.headers?
  let changed ← change h f.data
  return f.edit fun _ _ => changed

def alter (change : Headers → Bytes → Option Bytes) (f : Frame) :
    Option (Except SwitchError Unit × Frame) :=
  edit (fun h d => (change h d).map fun d => .ok (some d)) f

/-- What an action does to a frame by itself, if all places that it reads and writes are there. -/
def action : Action → Frame → Option (Except SwitchError Unit × Frame)
  | .copyTtlOut, f => edit copyTtlOut f
  | .copyTtlIn, f => edit copyTtlIn f
  | .setMplsTtl ttl, f => alter (fun h => setMplsTtl h ttl) f
  | .decMplsTtl, f =>
    match f.headers?.bind (·.mpls) with
    | some mpls =>
      if mpls.ttl = 0 then some (.ok (), f) else alter (fun h => setMplsTtl h (mpls.ttl - 1)) f
    | none => some (.ok (), f)
  | .pushVlan etherType, f => edit (pushVlan etherType) f
  | .popVlan, f => edit popVlan f
  | .pushMpls etherType, f => edit (pushMpls etherType) f
  | .popMpls etherType, f => edit (popMpls etherType) f
  | .setNwTtl ttl, f =>
    if f.headers?.any (·.ip?.isSome) then alter (fun h => setIpTtl h ttl) f else some (.ok (), f)
  | .decNwTtl, f =>
    match f.headers?.bind (·.ip?) with
    | some ip =>
      if ip.ttl = 0 then some (.ok (), f) else alter (fun h => setIpTtl h (ip.ttl - 1)) f
    | none => some (.ok (), f)
  | .setField fields, f => do
    let (result, f) ← alter (fun h d => setFields h fields d) f
    let tunnel := fields.get .tunnelId
    if result.isOk && tunnel.valid then
      return (result, f.updateContext fun c => { c with tunnelId := ⟨tunnel.value⟩ })
    else return (result, f)
  | .pushPbb etherType, f => edit (pushPbb etherType) f
  | .popPbb, f => edit popPbb f
  | .setQueue queueId, f => some (.ok (), f.updateContext ({ · with queueId }))
  | .output .., f | .group _, f => some (.ok (), f)
  | .experimenter _, f => some (.error (.badAction .badType), f)

section

variable {f : Frame} (held : f.headers? = some h)
include held

theorem edit_eq {strict : Headers → Bytes → Option (Except SpliceError (Option Bytes))}
    {change : Headers → Bytes → Except SpliceError (Option Bytes)}
    (same : strict h f.data = some (change h f.data)) : edit strict f = some (f.edit change) := by
  have parsed : f.ensureParsed = .ok f := by
    obtain ⟨v, view, -⟩ := Option.map_eq_some_iff.mp held
    rw [Frame.ensureParsed, view]
  rw [edit, held]
  simp only [Option.bind_eq_bind, Option.bind_some, same, Frame.edit, parsed, held]
  rfl

theorem alter_eq {strict : Headers → Bytes → Option Bytes} {change : Headers → Bytes → Bytes}
    (same : strict h f.data = some (change h f.data)) :
    alter strict f = some (f.alter change) := by
  refine edit_eq held ?_
  rw [same]
  rfl

end

/-- On a frame whose view holds the headers of its bytes no action is stopped. -/
theorem action_eq {f : Frame} (consistent : f.Consistent) (a : Action) :
    action a f = some (a.edit f) := by
  obtain ⟨h, held, read⟩ := consistent
  have laid := Headers.laid_of_parse read
  have mplsTtl (ttl : BitVec 8) :
      alter (fun h => setMplsTtl h ttl) f
        = some (f.alter fun h d => FieldWrite.setMplsTtl h ttl d) :=
    alter_eq held (setMplsTtl_eq laid.reaches rfl ttl)
  have ipTtl (ttl : BitVec 8) :
      alter (fun h => setIpTtl h ttl) f = some (f.alter fun h d => FieldWrite.setIpTtl h ttl d) :=
    alter_eq held (setIpTtl_eq laid.reaches rfl ttl)
  cases a with
  | copyTtlOut => exact edit_eq held (copyTtlOut_eq laid)
  | copyTtlIn => exact edit_eq held (copyTtlIn_eq laid)
  | setMplsTtl ttl => exact mplsTtl ttl
  | decMplsTtl =>
    simp only [action, Action.edit]
    cases f.headers?.bind (·.mpls) with
    | none => rfl
    | some mpls =>
      dsimp only
      split
      · rfl
      · exact mplsTtl _
  | pushVlan etherType => exact edit_eq held (pushVlan_eq laid etherType)
  | popVlan => exact edit_eq held (popVlan_eq laid)
  | pushMpls etherType => exact edit_eq held (pushMpls_eq laid etherType)
  | popMpls etherType => exact edit_eq held (popMpls_eq laid etherType)
  | setNwTtl ttl =>
    simp only [action, Action.edit]
    split
    · exact ipTtl ttl
    · rfl
  | decNwTtl =>
    simp only [action, Action.edit]
    cases f.headers?.bind (·.ip?) with
    | none => rfl
    | some ip =>
      dsimp only
      split
      · rfl
      · exact ipTtl _
  | setField fields =>
    have altered : alter (fun h d => setFields h fields d) f
        = some (f.alter fun h d => FieldWrite.setFields h fields d) :=
      alter_eq held (setFields_eq laid fields)
    simp only [action, Action.edit, Frame.setFields, altered, Option.bind_eq_bind,
      Option.bind_some]
    split <;> rfl
  | pushPbb etherType => exact edit_eq held (pushPbb_eq laid etherType)
  | popPbb => exact edit_eq held (popPbb_eq laid)
  | setQueue _ | output _ _ | group _ | experimenter _ => rfl

end Strict

end FlowSwitch
