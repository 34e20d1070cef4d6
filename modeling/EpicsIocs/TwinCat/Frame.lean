import EpicsIocs.Lib.Bytes

/-!
# ADS errors and received frames (`ads/error.rs`, `ads/frame.rs`)

A frame's body is the 32-byte AoE header and the payload; the reader thread
looks at the command, the error code and the invoke id.
-/

namespace TwinCat

open Bytes

/-- `AdsError`; an I/O error carries nothing the callers look at. -/
inductive AdsError
  | ads (code : UInt32)
  | shortFrame (need got : Nat)
  | shortRead (need got : Nat)
  | io
  | timeout
  | notConnected
deriving DecidableEq, Repr

/-- `Reader::u32` on what is left of the buffer. -/
def readerU32 (buf : List UInt8) : Except AdsError (UInt32 × List UInt8) :=
  if buf.length < 4 then .error (.shortFrame 4 buf.length)
  else .ok (UInt32.ofNat (leNat (buf.take 4)), buf.drop 4)

/-- `AOE_HEADER_LEN`. -/
def aoeHeaderLen : Nat := 32

/-- `CMD_DEVICE_NOTIFICATION`. -/
def cmdDeviceNotification : Nat := 8

/-- What the reader thread uses of a received frame. -/
structure AoeFrame where
  cmdId : Nat
  errorCode : UInt32
  invokeId : UInt32
  payload : List UInt8
deriving DecidableEq, Repr

/-- `AoeHeader::decode` of a frame's body, and the payload behind the header. -/
def decodeFrame (body : List UInt8) : Except AdsError AoeFrame :=
  if body.length < aoeHeaderLen then .error (.shortFrame aoeHeaderLen body.length)
  else .ok {
    cmdId := leNat ((body.drop 16).take 2)
    errorCode := UInt32.ofNat (leNat ((body.drop 24).take 4))
    invokeId := UInt32.ofNat (leNat ((body.drop 28).take 4))
    payload := body.drop aoeHeaderLen }

/-- What the waiting caller gets: an error in the header wins over the payload. -/
def AoeFrame.result (f : AoeFrame) : Except AdsError (List UInt8) :=
  if f.errorCode ≠ 0 then .error (.ads f.errorCode) else .ok f.payload

end TwinCat
