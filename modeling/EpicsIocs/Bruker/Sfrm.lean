import EpicsIocs.Eiger.Reader
import EpicsIocs.Lib.Faults
import EpicsIocs.Lib.Ints
import EpicsIocs.Lib.Text

/-!
# The Bruker SFRM frame file

`src/drivers/ad/bruker/src/sfrm.rs`: the header lines, and behind the header the pixels and the tables
of the values that do not fit a pixel.  Sizes are `usize`: their arithmetic panics with
overflow checks (`checks`) and wraps without.
-/

namespace Bruker

open Faults

/-! ## The header -/

def lineLen : Nat := 80
def dataOffset : Nat := 8
def blockLen : Nat := 512
def linesRead : Nat := 80

structure Header where
  format : Int
  version : Int
  headerBlocks : Nat
  numUnderflows : Int
  numOverflows1 : Int
  numOverflows2 : Int
  bytesPerPixel : Nat
  underflowBytesPerPixel : Nat
  rows : Nat
  cols : Nat
  wordOrder : Int
  numExposures : Int
  bias : Int
  baselineOffset : Int
  orientation : Int
  overscan : Int
  deriving DecidableEq, Repr

structure Image where
  rows : Nat
  cols : Nat
  data : List Nat
  deriving DecidableEq, Repr

/-- `v as i32`. -/
def asI32 (v : Int) : Int := v.bmod (2 ^ 32)

/-- The values up to the first group that is none. -/
def mapWhile {α β : Type} (f : α → Option β) : List α → List β
  | [] => []
  | a :: as =>
    match f a with
    | none => []
    | some b => b :: mapWhile f as

def numbers (header : List UInt8) (line count : Nat) : Outcome String (List Int) :=
  let start := line * lineLen + dataOffset
  let stop := (line + 1) * lineLen
  if header.length < stop then fail s!"the header stops before line {line}"
  else
    (slice header start stop).bind fun text =>
      let text := (Eiger.fromUtf8Lossy text).toList
      let values := mapWhile Ints.int64.parse (Text.splitWhitespace text)
      if values.length < count then
        let shown := String.ofList (Text.trim text)
        fail s!"header line {line} holds {values.length} numbers, {count} were expected: '{shown}'"
      else .ok values

/-- A pixel's or an underflow's width that can be read. -/
def isWidth (width : Int) : Bool := width = 1 || width = 2 || width = 4

def parseHeader (checks : Bool) (bytes : List UInt8) : Outcome String Header := do
  let format := asI32 ((← numbers bytes 0 1).getD 0 0)
  let version := asI32 ((← numbers bytes 1 1).getD 0 0)
  let headerBlocks := (← numbers bytes 2 1).getD 0 0
  if format ≠ 100 ∨ version < 11 then
    fail s!"unsupported format={format} or version={version}"
  else if headerBlocks ≤ 0 then fail s!"a header of {headerBlocks} blocks cannot be read"
  else
    let headerBytes ← mul checks headerBlocks.toNat blockLen
    if bytes.length < headerBytes ∨ headerBytes < linesRead * lineLen then
      fail s!"a header of {headerBlocks} blocks in a file of {bytes.length} bytes is too short"
    else
      let counts ← numbers bytes 20 3
      let widths ← numbers bytes 39 2
      let rows := (← numbers bytes 40 1).getD 0 0
      let cols := (← numbers bytes 41 1).getD 0 0
      let wordOrder := asI32 ((← numbers bytes 42 1).getD 0 0)
      let frame ← numbers bytes 79 5
      let bytesPerPixel := widths.getD 0 0
      let underflowBytesPerPixel := widths.getD 1 0
      if wordOrder ≠ 0 then
        fail s!"unsupported wordOrder={wordOrder} or longOrder={wordOrder}"
      else if !isWidth bytesPerPixel then fail s!"unsupported pixel width {bytesPerPixel}"
      else if !isWidth underflowBytesPerPixel then
        fail s!"unsupported underflow width {underflowBytesPerPixel}"
      else if rows ≤ 0 ∨ cols ≤ 0 then fail s!"a frame of {rows} x {cols} pixels cannot be read"
      else
        .ok {
          format := format
          version := version
          headerBlocks := headerBlocks.toNat
          numUnderflows := asI32 (counts.getD 0 0)
          numOverflows1 := asI32 (counts.getD 1 0)
          numOverflows2 := asI32 (counts.getD 2 0)
          bytesPerPixel := bytesPerPixel.toNat
          underflowBytesPerPixel := underflowBytesPerPixel.toNat
          rows := rows.toNat
          cols := cols.toNat
          wordOrder := wordOrder
          numExposures := asI32 (frame.getD 0 0)
          bias := asI32 (frame.getD 1 0)
          baselineOffset := asI32 (frame.getD 2 0)
          orientation := asI32 (frame.getD 3 0)
          overscan := asI32 (frame.getD 4 0) }

/-! ## The pixels and the tables -/

/-- Each byte is shifted to its place, of a `u32`. -/
def readLe (bytes : List UInt8) : Nat :=
  bytes.zipIdx.foldl (fun value p => value ||| p.1.toNat <<< (8 * p.2) % 2 ^ 32) 0

/-- The value of `width` bytes at index `i` of those that begin at `at`. -/
def valueAt (checks : Bool) (bytes : List UInt8) (start width i : Nat) : Outcome String Nat := do
  let offset ← mul checks i width
  let first ← add checks start offset
  let last ← add checks first width
  let text ← slice bytes first last
  .ok (readLe text)

def values (checks : Bool) (bytes : List UInt8) (start width count : Nat) : Outcome String (List Nat) :=
  (List.range' 0 count).mapM (valueAt checks bytes start width)

/-- The values of a table, and where the next begins. -/
def table (checks : Bool) (bytes : List UInt8) (start : Nat) (count : Int) (width : Nat) (what : String) :
    Outcome String (List Nat × Nat) :=
  if count ≤ 0 then .ok ([], start)
  else do
    let count := count.toNat
    let size ← mul checks count width
    let padded ← mul checks ((size + 15) / 16) 16
    let stop ← add checks start padded
    if bytes.length < stop then
      fail s!"the file stops {bytes.length - start} bytes into a {what} table of {padded} bytes"
    else
      let entries ← values checks bytes start width count
      .ok (entries, stop)

/-- What the tables hold. -/
structure Tables where
  underflows : List Nat
  overflows1 : List Nat
  overflows2 : List Nat
  deriving DecidableEq, Repr

/-- How many entries of each table have been used. -/
structure Used where
  n1 : Nat
  n2 : Nat
  nu : Nat
  deriving DecidableEq, Repr

def entry (entries : List Nat) (n : Nat) (what : String) : Except String Nat :=
  match entries[n]? with
  | none => .error s!"the {what} table holds {entries.length} entries, the frame needs more"
  | some v => .ok v

/-- The three steps of the correction loop for a pixel. -/
def correct1 (bytesPerPixel : Nat) (t : Tables) (value : Nat) (used : Used) : Except String (Nat × Used) :=
  if bytesPerPixel = 1 ∧ value = 255 then
    (entry t.overflows1 used.n1 "1-byte overflow").map fun v => (v, { used with n1 := used.n1 + 1 })
  else .ok (value, used)

def correct2 (bytesPerPixel : Nat) (t : Tables) (value : Nat) (used : Used) : Except String (Nat × Used) :=
  if bytesPerPixel ≠ 4 ∧ value = 65535 then
    (entry t.overflows2 used.n2 "2-byte overflow").map fun v => (v, { used with n2 := used.n2 + 1 })
  else .ok (value, used)

def correct3 (baselineOffset : Int) (t : Tables) (value : Nat) (used : Used) : Except String (Nat × Used) :=
  if value = 0 then
    if t.underflows.isEmpty then .ok (value, used)
    else (entry t.underflows used.nu "underflow").map fun v => (v, { used with nu := used.nu + 1 })
  else if baselineOffset ≠ 0 then
    .ok ((value + (baselineOffset % 2 ^ 32).toNat) % 2 ^ 32, used)
  else .ok (value, used)

/-- The correction loop. -/
def correct (bytesPerPixel : Nat) (baselineOffset : Int) (t : Tables) :
    List Nat → Used → Except String (List Nat)
  | [], _ => .ok []
  | value :: data, used => do
    let (value, used) ← correct1 bytesPerPixel t value used
    let (value, used) ← correct2 bytesPerPixel t value used
    let (value, used) ← correct3 baselineOffset t value used
    let data ← correct bytesPerPixel baselineOffset t data used
    .ok (value :: data)

namespace Header

variable (h : Header)

/-- A frame without an underflow table has no baseline. -/
def baseline : Int := if h.numUnderflows = -1 then 0 else h.baselineOffset

end Header

def decode (checks : Bool) (bytes : List UInt8) : Outcome String Image := do
  let header ← parseHeader checks bytes
  let nPixels ← mul checks header.rows header.cols
  let start ← mul checks header.headerBlocks blockLen
  let dataBytes ← mul checks nPixels header.bytesPerPixel
  let stop ← add checks start dataBytes
  if bytes.length < stop then
    fail s!"the file holds {bytes.length - start} of the {dataBytes} pixel bytes the header promises"
  else
    let data ← values checks bytes start header.bytesPerPixel nPixels
    let (underflows, start) ←
      table checks bytes stop header.numUnderflows header.underflowBytesPerPixel "underflow"
    let (overflows1, start) ← table checks bytes start header.numOverflows1 2 "1-byte overflow"
    let (overflows2, _) ← table checks bytes start header.numOverflows2 4 "2-byte overflow"
    let data ← lift (correct header.bytesPerPixel header.baseline ⟨underflows, overflows1, overflows2⟩
      data ⟨0, 0, 0⟩)
    .ok ⟨header.rows, header.cols, data⟩

end Bruker
