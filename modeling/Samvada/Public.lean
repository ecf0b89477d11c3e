import Samvada.Native

/- samvada.cyr and the table of samvada_ffi.cyr: the public API over a backend. A
   backend is any table of programs over a state of its own, each slot wired or
   null, so a result about the API holds whatever a backend answers and whatever
   it stores in its out-parameters. Every dispatch is logged with what came back. -/
namespace Samvada
open Octets Resumable

/-! ## The backend's table -/

/-- A table of samvada_ffi.cyr, none for a null slot. An out-parameter is part of a
slot's result, none where it is not written. -/
structure Table (σ : Type) where
  kind : Int
  openSystemBus : Option (Prog σ (Int × Option Int)) := none
  getSessionPath : Option (Int → Int → Int → Prog σ (Int × Option Bytes)) := none
  takeDevice : Option (Int → Bytes → Int → Int → Prog σ (Int × Option Int × Option Int)) := none
  releaseDevice : Option (Int → Bytes → Int → Int → Prog σ Int) := none
  pumpSignals : Option (Int → Prog σ Int) := none
  closeBus : Option (Int → Prog σ Int) := none
  takeControl : Option (Int → Bytes → Prog σ Int) := none
  releaseControl : Option (Int → Bytes → Prog σ Int) := none

def samvadaBackendKindLibsystemd : Int := 1
def samvadaBackendKindPureCyrius : Int := 2

/-! ## The API's state -/

/-- `_samvada_control`: whether session control is held. -/
inductive Control where
  /-- 0 -/
  | no
  /-- 1 -/
  | yes
  /-- 2: a TakeControl or a ReleaseControl timed out -/
  | maybe
  deriving DecidableEq, Repr

/-- A word of the held-device table. -/
abbrev Key := BitVec 64

/-- The file-scope state of samvada.cyr; a block is none until it is allocated. -/
structure Public (σ : Type) where
  table : Option (Table σ) := none
  bus : Int := 0
  sess : Option Bytes := none
  outs : Option (Int × Int) := none
  control : Control := .no
  /-- is `_samvada_held` allocated? -/
  heldReady : Bool := false
  /-- `_samvada_held[0 .. _samvada_heldn)` -/
  held : List Key := []

/-- A dispatch through the table, with what came back. -/
inductive Dispatch where
  /-- the bus is the word the API reads back -/
  | openSystemBus (rc bus : Int)
  | getSessionPath (bus pid rc : Int)
  | takeControl (bus rc : Int)
  | releaseControl (bus rc : Int)
  /-- the descriptor is the one the API reads back -/
  | takeDevice (bus major minor rc fd : Int)
  | releaseDevice (bus major minor rc : Int)
  | pumpSignals (bus rc : Int)
  | closeBus (bus rc : Int)
  deriving DecidableEq, Repr

/-- The API's state, the allocator's answers (a block with what is in it, or none),
the process, the backend, and the dispatches so far. -/
structure Host (σ : Type) where
  pub : Public σ := {}
  allocs : List (Option Bytes) := []
  pid : Int := 0
  back : σ
  log : List Dispatch := []

/-- A function of the API. -/
abbrev Api (σ : Type) := Prog (Host σ)

section
variable {σ α : Type}

def setPub (f : Public σ → Public σ) : Api σ Unit := Prog.modify fun h => { h with pub := f h.pub }
def setControl (c : Control) : Api σ Unit := setPub fun p => { p with control := c }

/-- `fncallN` through a wired slot. -/
def dispatch (x : Prog σ α) (d : α → Dispatch) : Api σ α := fun h =>
  match x h.back with
  | .done a b => .done a { h with back := b, log := h.log ++ [d a] }
  | .waiting b => .waiting { h with back := b }

/-- `_samvada_slot` -/
def slot (f : Table σ → Option α) : Api σ (Option α) := Prog.gets fun h => h.pub.table.bind f

def samvadaSessBuflen : Nat := 512

/-- A block of `n` bytes, from what the allocator left in it. -/
def block (n : Nat) (c : Bytes) : Bytes := (c ++ List.replicate n 0).take n

/-- `alloc`: none when it fails. -/
def alloc : Api σ (Option Bytes) :=
  Prog.modifyGet fun h => (h.allocs.headD none, { h with allocs := h.allocs.tail })

/-- The session path a backend is given, as a C string's bytes. -/
def sessArg (p : Public σ) : Bytes := p.sess.getD []

/-! ## Private helpers -/

def samvadaHeldCap : Nat := 256

def samvadaDevnumOk (v : Int) : Bool := 0 ≤ v && v ≤ 4294967295

/-- `(major << 32) | minor` -/
def heldKey (major minor : Int) : Key := BitVec.ofInt 64 major <<< 32 ||| BitVec.ofInt 64 minor

/-- `_samvada_held_find`: the first index with the key, none for -1. -/
def samvadaHeldFind (held : List Key) (major minor : Int) : Option Nat :=
  held.findIdx? (· == heldKey major minor)

def samvadaHeldAdd (held : List Key) (major minor : Int) : Int × List Key :=
  if samvadaHeldCap ≤ held.length then (-24, held) else (0, held ++ [heldKey major minor])

/-- `_samvada_held_del`: the last entry takes the removed one's place. -/
def samvadaHeldDel (held : List Key) : Option Nat → List Key
  | none => held
  | some i =>
    if held.length ≤ i then held else (held.set i (held.getD (held.length - 1) 0)).dropLast

/-- Is this the bus itself failing, rather than logind refusing? -/
def samvadaBusFailed (rc : Int) : Bool := rc == -104 || rc == -107 || rc == -110

/-- The low 32 bits of a word, as a signed number. -/
def fdWord (v : Int) : Int := if 2147483648 ≤ v % 4294967296 then v % 4294967296 - 4294967296
else v % 4294967296

/-! ## Session control -/

def samvadaTakeControl : Api σ Int := do
  match ← slot (·.takeControl) with
  | none => pure (-38)
  | some call => do
    let p ← Prog.gets (·.pub)
    let rc ← dispatch (call p.bus (sessArg p)) (.takeControl p.bus)
    if rc = -110 then do
      setControl (if p.control = .no then .maybe else p.control)
      pure rc
    else if rc < 0 then pure rc
    else do
      setControl .yes
      pure 0

/-- ReleaseControl, 0 where its slot is null. -/
def releaseControlCall : Api σ Int := do
  match ← slot (·.releaseControl) with
  | none => pure 0
  | some call => do
    let p ← Prog.gets (·.pub)
    dispatch (call p.bus (sessArg p)) (.releaseControl p.bus)

/-- What a failed ReleaseControl leaves. -/
def controlAfter (c : Control) (rc : Int) : Control :=
  if rc = -110 then .maybe else if rc = -22 ∨ samvadaBusFailed rc = true then .no else c

def samvadaDropControl (closing : Bool) : Api σ Int := do
  let c ← Prog.gets (·.pub.control)
  if c = .no then pure 0
  else if closing = true ∧ c = .maybe then do
    setControl .no
    pure 0
  else do
    let rc ← releaseControlCall
    if 0 ≤ rc then do
      setControl .no
      pure 0
    else do
      setControl (controlAfter c rc)
      pure rc

/-! ## Release and init -/

/-- The part of `samvada_release` for a live bus. -/
def closeLiveBus : Api σ Unit := do
  let bus ← Prog.gets (·.pub.bus)
  if bus = 0 then pure ()
  else do
    let _ ← samvadaDropControl true
    match ← slot (·.closeBus) with
    | none => setPub fun p => { p with bus := 0 }
    | some call => do
      let _ ← dispatch (call bus) (.closeBus bus)
      setPub fun p => { p with bus := 0 }

/-- The scratch zeroed, where it is allocated. -/
def Public.zeroed (p : Public σ) : Public σ :=
  { p with
    outs := p.outs.map fun _ => (0, 0)
    sess := p.sess.map fun _ => List.replicate samvadaSessBuflen 0 }

def samvadaRelease : Api σ Int := do
  closeLiveBus
  setPub fun p => { p.zeroed with control := .no, held := [], table := none }
  pure 0

/-- `samvada_release()` and the errno. -/
def releaseWith (rc : Int) : Api σ Int := do
  let _ ← samvadaRelease
  pure rc

/-- Allocate a block on first init. -/
def ensure (has : Public σ → Bool) (put : Public σ → Bytes → Public σ) : Api σ Bool := do
  if ← Prog.gets fun h => has h.pub then pure true
  else match ← alloc with
    | none => pure false
    | some c => do
      setPub fun p => put p c
      pure true

def ensureSess : Api σ Bool :=
  ensure (·.sess.isSome) fun p c => { p with sess := some (block samvadaSessBuflen c) }

def ensureOuts : Api σ Bool :=
  ensure (·.outs.isSome) fun p c =>
    { p with outs := some (int64 (load64 (block 16 c) 0), int64 (load64 (block 16 c) 8)) }

def ensureHeld : Api σ Bool := ensure (·.heldReady) fun p _ => { p with heldReady := true }

/-- What a backend stores in the session buffer. -/
def Public.storeSess (p : Public σ) (out : Option Bytes) : Public σ :=
  { p with
    sess := p.sess.map fun old =>
      (out.getD [] ++ old.drop (out.getD []).length).take samvadaSessBuflen }

/-- `samvada_init`, from the bus on: the session path of our pid, and the slot
TakeControl will need. -/
def initSession : Api σ Int := do
  match ← slot (·.getSessionPath) with
  | none => releaseWith (-38)
  | some call => do
    let bus ← Prog.gets (·.pub.bus)
    let pid ← Prog.gets (·.pid)
    let (rc, path) ← dispatch (call bus pid samvadaSessBuflen) fun r => .getSessionPath bus pid r.1
    setPub (·.storeSess path)
    if rc < 0 then releaseWith rc
    else match ← slot (·.takeControl) with
      | none => releaseWith (-38)
      | some _ => pure 0

/-- `samvada_init`, from the scratch on. -/
def initBus : Api σ Int := do
  setPub fun p => { p.zeroed with held := [] }
  match ← slot (·.openSystemBus) with
  | none => releaseWith (-38)
  | some call => do
    let (rc, out) ← dispatch call fun r => .openSystemBus r.1 (r.2.getD 0)
    setPub fun p => { p with outs := p.outs.map fun o => (out.getD 0, o.2) }
    if rc < 0 then releaseWith rc
    else do
      setPub fun p => { p with bus := out.getD 0 }
      if out.getD 0 = 0 then releaseWith (-107) else initSession

/-- `samvada_init`, once the table is accepted. -/
def initAccepted : Api σ Int := do
  if ← ensureSess then
    if ← ensureOuts then
      if ← ensureHeld then initBus else releaseWith (-12)
    else releaseWith (-12)
  else releaseWith (-12)

def samvadaInit (table : Option (Table σ)) : Api σ Int :=
  match table with
  | none => pure (-22)
  | some t => do
    if (← Prog.gets (·.pub.table)).isSome then pure (-16)
    else if t.kind ≠ samvadaBackendKindLibsystemd ∧ t.kind ≠ samvadaBackendKindPureCyrius then
      pure (-22)
    else do
      setPub fun p => { p with table := some t }
      initAccepted

/-! ## Devices -/

/-- Control, taken only when no device is held. -/
def acquireControl : Api σ Int := do
  let held ← Prog.gets (·.pub.held)
  if held.length = 0 then samvadaTakeControl else pure 0

/-- A take that failed puts logind's view back in step. -/
def takeFailed (major minor rc : Int) : Api σ Int := do
  let p ← Prog.gets (·.pub)
  if p.held.length = 0 then do
    let _ ← samvadaDropControl false
    pure rc
  else if rc = -110 then do
    setControl .maybe
    pure rc
  else if samvadaBusFailed rc = true then pure rc
  else match ← slot (·.releaseDevice) with
    | none => pure rc
    | some call => do
      let _ ← dispatch (call p.bus (sessArg p) major minor) (.releaseDevice p.bus major minor)
      pure rc

/-- The take itself, with control held. -/
def takeHolding (call : Int → Bytes → Int → Int → Prog σ (Int × Option Int × Option Int))
    (major minor : Int) : Api σ Int := do
  setPub fun p => { p with outs := p.outs.map fun _ => (0, 0) }
  let p ← Prog.gets (·.pub)
  let (rc, fdOut, activeOut) ← dispatch (call p.bus (sessArg p) major minor) fun r =>
    .takeDevice p.bus major minor r.1 (fdWord (r.2.1.getD 0))
  setPub fun p => { p with outs := p.outs.map fun _ => (fdOut.getD 0, activeOut.getD 0) }
  let fd := fdWord (fdOut.getD 0)
  if 0 ≤ rc then
    if 0 ≤ fd then do
      setPub fun p => { p with held := (samvadaHeldAdd p.held major minor).2 }
      pure fd
    else takeFailed major minor (-9)
  else takeFailed major minor rc

def samvadaSessionTakeDevice (major minor : Int) : Api σ Int := do
  let p ← Prog.gets (·.pub)
  if p.table.isNone then pure (-22)
  else if p.bus = 0 then pure (-107)
  else match ← slot (·.takeDevice) with
    | none => pure (-38)
    | some call =>
      if samvadaDevnumOk major = false ∨ samvadaDevnumOk minor = false then pure (-22)
      else if (samvadaHeldFind p.held major minor).isSome then pure (-22)
      else if samvadaHeldCap ≤ p.held.length then pure (-24)
      else do
        let tc ← acquireControl
        if tc < 0 then pure tc else takeHolding call major minor

/-- Once the consumer has given every device back, control goes back too. -/
def dropWhenEmpty : Api σ Unit := do
  let held ← Prog.gets (·.pub.held)
  if held.length = 0 then do
    let _ ← samvadaDropControl false
    pure ()
  else pure ()

def samvadaSessionReleaseDevice (major minor : Int) : Api σ Int := do
  let p ← Prog.gets (·.pub)
  if p.table.isNone then pure (-22)
  else if p.bus = 0 then pure (-107)
  else match ← slot (·.releaseDevice) with
    | none => pure (-38)
    | some call =>
      if samvadaDevnumOk major = false ∨ samvadaDevnumOk minor = false then pure (-22)
      else do
        let rc ← dispatch (call p.bus (sessArg p) major minor) (.releaseDevice p.bus major minor)
        setPub fun p =>
          { p with held := samvadaHeldDel p.held (samvadaHeldFind p.held major minor) }
        dropWhenEmpty
        if rc < 0 then pure rc else pure 0

def samvadaPumpSignals : Api σ Int := do
  let p ← Prog.gets (·.pub)
  if p.table.isNone then pure (-22)
  else if p.bus = 0 then pure (-107)
  else match ← slot (·.pumpSignals) with
    | none => pure (-38)
    | some call => dispatch (call p.bus) (.pumpSignals p.bus)

/-! ## Runs of the API -/

/-- A call of the public API. -/
inductive ApiOp (σ : Type) where
  | init (table : Option (Table σ))
  | takeDevice (major minor : Int)
  | releaseDevice (major minor : Int)
  | pumpSignals
  | release

def ApiOp.run : ApiOp σ → Api σ Int
  | init table => samvadaInit table
  | takeDevice major minor => samvadaSessionTakeDevice major minor
  | releaseDevice major minor => samvadaSessionReleaseDevice major minor
  | pumpSignals => samvadaPumpSignals
  | release => samvadaRelease

/-- Calls one after the other: what each returned. -/
def runApi : List (ApiOp σ) → Api σ (List Int)
  | [] => pure []
  | op :: rest => do
    let rc ← op.run
    let rcs ← runApi rest
    pure (rc :: rcs)

end

/-! ## The native backend's table -/

/-- `dbus_native_populate` -/
def nativeTable : Table World where
  kind := samvadaBackendKindPureCyrius
  openSystemBus := some dbusNativeOpenSystemBus
  getSessionPath := some fun bus pid outLen => dbusNativeGetSessionPath bus pid (some outLen)
  takeDevice := some fun bus sess major minor => do
    let (rc, out) ← dbusNativeTakeDevice bus (some sess) major minor
    pure (rc, out.map (·.1), out.map fun o => (o.2 : Int))
  releaseDevice :=
    some fun bus sess major minor => dbusNativeReleaseDevice bus (some sess) major minor
  pumpSignals := some dbusNativePumpSignals
  closeBus := some dbusNativeCloseBus
  takeControl := some fun bus sess => dbusNativeTakeControl bus (some sess)
  releaseControl := some fun bus sess => dbusNativeReleaseControl bus (some sess)

end Samvada
