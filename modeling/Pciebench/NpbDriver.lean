import Mathlib
import Pciebench.Config
import Pciebench.Lib.Ownership

/-!
Set-up and tear-down of the kernel module (`nfp_pciebench_main.c`): what the kernel calls of
`npb_pci_probe` and `npb_init` return is arbitrary, and each resource acquired or released is
logged under the variable that holds it.
-/

namespace Pciebench

open Ownership

inductive NpbResource
  | device
  | regions
  | cpp
  | devCpp
  | npb
  | pages (chunk : Nat)     -- `npb->buf[i]`
  | mapping (chunk : Nat)   -- `npb->buf_dma_addrs[i]`
  | procDmaAddrs
  | procBufSz
  | procBuffer
  deriving DecidableEq, Repr

inductive PciDevice
  | nfp3200
  | nfp4000
  | nfp6000
  | other
  deriving DecidableEq, Repr

/-- What each call returns: a code, or a pointer or address with zero for NULL. -/
structure KernelCalls where
  enableDevice : Int
  setDmaMask : Int
  setConsistentDmaMask : Int
  requestRegions : Int
  device : PciDevice
  cppFromNfp3200Pcie : UInt64
  cppFromNfp6000Pcie : UInt64
  platformDeviceRegister : UInt64
  kzalloc : UInt64
  pageAddress : Nat → UInt64
  dmaMapSingle : Nat → UInt64
  procDmaAddrs : UInt64
  procBufSz : UInt64
  procBuffer : UInt64

/-- `struct nfp_pciebench`, as far as set-up and tear-down use it. -/
structure NfpPciebench where
  cpp : UInt64
  nfpDevCpp : UInt64
  buf : Nat → UInt64
  bufDmaAddrs : Nat → UInt64
  procDmaAddrs : UInt64
  procBufSz : UInt64
  procBuffer : UInt64

def NfpPciebench.zeroed (cpp nfpDevCpp : UInt64) : NfpPciebench where
  cpp := cpp
  nfpDevCpp := nfpDevCpp
  buf := fun _ => 0
  bufDmaAddrs := fun _ => 0
  procDmaAddrs := 0
  procBufSz := 0
  procBuffer := 0

structure Driver where
  npb : NfpPciebench
  drvdata : Option NfpPciebench
  log : List (Event NpbResource)

def Driver.acquire (driver : Driver) (resource : NpbResource) : Driver :=
  { driver with log := driver.log ++ [.acquire resource] }

def Driver.release (driver : Driver) (resource : NpbResource) : Driver :=
  { driver with log := driver.log ++ [.release resource] }

def Driver.releaseIf (driver : Driver) (pointer : UInt64) (resource : NpbResource) : Driver :=
  if pointer ≠ 0 then driver.release resource else driver

def Driver.unbound : Driver where
  npb := .zeroed 0 0
  drvdata := none
  log := []

def enomem : Int := 12

def enodev : Int := 19

def isErrOrNull (pointer : UInt64) : Bool :=
  pointer = 0 || decide (2 ^ 64 - 4095 ≤ pointer.toNat)

-- `PTR_ERR` stored in an `int`
def ptrErr (pointer : UInt64) : Int :=
  (pointer.toNat : Int).bmod (2 ^ 32)

section Remove

def removeChunk (npb : NfpPciebench) (driver : Driver) (chunk : Nat) : Driver :=
  (driver.releaseIf (npb.bufDmaAddrs chunk) (.mapping chunk)).releaseIf
    (npb.buf chunk) (.pages chunk)

def npbRemove (chunks : Nat) (npb : NfpPciebench) (driver : Driver) : Driver :=
  let driver := driver.releaseIf npb.procBuffer .procBuffer
  let driver := driver.releaseIf npb.procBufSz .procBufSz
  let driver := driver.releaseIf npb.procDmaAddrs .procDmaAddrs
  (List.range chunks).foldl (removeChunk npb) driver

end Remove

section Init

variable (calls : KernelCalls)

/-- One pass of the allocation loop; an error is a `goto err`. -/
def allocChunk (driver : Driver) (chunk : Nat) : Except (Int × Driver) Driver :=
  let npb := { driver.npb with
    buf := Function.update driver.npb.buf chunk (calls.pageAddress chunk) }
  let driver := { driver with npb := npb }
  if calls.pageAddress chunk = 0 then
    .error (-enomem, driver)
  else
    let driver := driver.acquire (.pages chunk)
    let npb := { driver.npb with
      bufDmaAddrs := Function.update driver.npb.bufDmaAddrs chunk (calls.dmaMapSingle chunk) }
    let driver := { driver with npb := npb }
    if calls.dmaMapSingle chunk = 0 then
      .error (-enomem, driver)
    else
      .ok (driver.acquire (.mapping chunk))

/-- `proc_create_data` and the assignment that follows it. -/
def createProc (entry : UInt64) (resource : NpbResource)
    (assign : NfpPciebench → UInt64 → NfpPciebench) (driver : Driver) :
    Except (Int × Driver) Driver :=
  if entry = 0 then .error (-enodev, driver)
  else .ok { driver.acquire resource with npb := assign driver.npb entry }

def createDmaAddrs : Driver → Except (Int × Driver) Driver :=
  createProc calls.procDmaAddrs .procDmaAddrs fun npb pe => { npb with procDmaAddrs := pe }

def createBufSz : Driver → Except (Int × Driver) Driver :=
  createProc calls.procBufSz .procBufSz fun npb pe => { npb with procBufSz := pe }

def createBuffer : Driver → Except (Int × Driver) Driver :=
  createProc calls.procBuffer .procBuffer fun npb pe => { npb with procBuffer := pe }

/-- `npb_init` up to its `return 0` or a `goto err`. -/
def npbInitSteps (chunks : Nat) (driver : Driver) : Except (Int × Driver) Driver := do
  let driver ← (List.range chunks).foldlM (allocChunk calls) driver
  let driver ← createDmaAddrs calls driver
  let driver ← createBufSz calls driver
  createBuffer calls driver

def npbInit (chunks : Nat) (driver : Driver) : Int × Driver :=
  match npbInitSteps calls chunks driver with
  | .ok driver => (0, driver)
  | .error (err, driver) => (err, npbRemove chunks driver.npb driver)

end Init

section Probe

/-! The labels at the end of `npb_pci_probe`, each falling through to the next. -/

def errDmaMask (err : Int) (driver : Driver) : Int × Driver :=
  (err, driver.release .device)

def errNfpCpp (err : Int) (driver : Driver) : Int × Driver :=
  errDmaMask err (driver.release .regions)

def errRegDev (err : Int) (driver : Driver) : Int × Driver :=
  errNfpCpp err (driver.release .cpp)

def errKzalloc (err : Int) (driver : Driver) : Int × Driver :=
  errRegDev err (driver.release .devCpp)

def errInit (err : Int) (driver : Driver) : Int × Driver :=
  errKzalloc err (driver.release .npb)

def afterInit : Int × Driver → Int × Driver
  | (err, driver) =>
      if err ≠ 0 then errInit err driver
      else (0, { driver with drvdata := some driver.npb })

def cppFromPcie (calls : KernelCalls) : Option UInt64 :=
  match calls.device with
  | .nfp3200 => some calls.cppFromNfp3200Pcie
  | .nfp4000 | .nfp6000 => some calls.cppFromNfp6000Pcie
  | .other => none

def npbPciProbe (calls : KernelCalls) (chunks : Nat) (driver : Driver) : Int × Driver :=
  if calls.enableDevice < 0 then (calls.enableDevice, driver)
  else
    let driver := driver.acquire .device
    if calls.setDmaMask < 0 then errDmaMask calls.setDmaMask driver
    else if calls.setConsistentDmaMask < 0 then errDmaMask calls.setConsistentDmaMask driver
    else if calls.requestRegions < 0 then errDmaMask calls.requestRegions driver
    else
      let driver := driver.acquire .regions
      match cppFromPcie calls with
      | none => errNfpCpp (-enodev) driver
      | some cpp =>
          if isErrOrNull cpp then
            let err := ptrErr cpp
            errNfpCpp (if err ≥ 0 then -enomem else err) driver
          else
            let driver := driver.acquire .cpp
            let devCpp := calls.platformDeviceRegister
            if devCpp = 0 then errRegDev (-enodev) driver
            else
              let driver := driver.acquire .devCpp
              if calls.kzalloc = 0 then errKzalloc (-enomem) driver
              else
                let driver := { driver.acquire .npb with npb := .zeroed cpp devCpp }
                afterInit (npbInit calls chunks driver)

def npbPciRemove (chunks : Nat) (driver : Driver) : Driver :=
  match driver.drvdata with
  | none => driver
  | some npb =>
      let driver := npbRemove chunks npb driver
      let driver := driver.release .devCpp
      let driver := driver.release .cpp
      let driver := driver.release .npb
      let driver := { driver with drvdata := none }
      let driver := driver.release .regions
      driver.release .device

end Probe

end Pciebench
