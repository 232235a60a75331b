/-
# `RigExec.Transport.Model` — the frame of a compressed file

A frame is a header of 48 bytes and a compressed payload.

    offset    bytes    field
    0         8        the magic
    8         4        the version, 1
    12        4        the header's size
    16        8        the raw size
    24        8        the payload's size
    32        5        the properties of the compressed stream
    37        3        zero
    40        4        CRC of the raw bytes
    44        4        CRC of the payload

A pointer is `Option`, `none` for null.  The codec is a parameter: a program that calls
`Allocate` and `Free` as it goes.  What `malloc` answers is a parameter as well.
-/
import RigExec.Lib.Bytes

namespace RigExec.Transport

open Lib (Bytes bytesAt writeAt readLE leBytes)

def headerSize : Nat := 48

/-- `MaxRaw`, `INT32_MAX`; sizes are strictly below. -/
def maxRaw : Nat := 2147483647

def sdkBudget : Nat := 128 * 1024 * 1024

/-- `Magic`: `RXELZ1`, two zeros. -/
def magic : Bytes := [82, 88, 69, 76, 90, 49, 0, 0]

/-- Subtraction of `size_t`. -/
def sizeSub (a b : Nat) : Nat :=
  (a + 2 ^ 64 - b) % 2 ^ 64

/-- Bytes that a `size_t` counts. -/
structure View where
  bytes : Bytes
  fits : bytes.length < 2 ^ 64

/-! ## Memory -/

structure Stats where
  sdkCalls : Nat := 0
  sdkActive : Nat := 0
  sdkPeak : Nat := 0
  outputAttempts : Nat := 0
  deriving DecidableEq

/-- The fault hooks of one call; the number 0 asks for no fault. -/
structure Faults where
  failSDKCall : Nat := 0
  failOutput : Bool := false
  failOutputCall : Nat := 0

structure Context where
  stats : Stats
  faults : Faults

/-- The block in front of what `Allocate` returns: it keeps the size for `Free`. -/
structure Allocation where
  size : Nat

/-- `sizeof(Allocation)`, aligned for any object. -/
def allocationSize : Nat := 16

/-- What the system's allocators answer: to the codec's call number `k` for `n` bytes, to
output attempt number `k` for `n` bytes (with the bytes found there), to a vector of `n`
bytes. -/
structure Heap where
  sdk : Nat → Nat → Bool
  output : Nat → Nat → Option Bytes
  vector : Nat → Bool
  output_length : ∀ k n b, output k n = some b → b.length = n

def allocate (heap : Heap) (c : Context) (n : Nat) : Option Allocation × Context :=
  let c := { c with stats.sdkCalls := c.stats.sdkCalls + 1 }
  if (c.faults.failSDKCall ≠ 0 ∧ c.stats.sdkCalls = c.faults.failSDKCall) ∨
      sizeSub sdkBudget c.stats.sdkActive < n ∨ 2 ^ 64 - 1 - allocationSize < n then
    (none, c)
  else if heap.sdk c.stats.sdkCalls (n + allocationSize) = false then
    (none, c)
  else
    let active := c.stats.sdkActive + n
    (some ⟨n⟩,
      { c with stats.sdkActive := active, stats.sdkPeak := max c.stats.sdkPeak active })

def free (c : Context) : Option Allocation → Context
  | none => c
  | some p => { c with stats.sdkActive := sizeSub c.stats.sdkActive p.size }

/-- A computation that allocates through `Allocate` and `Free`. -/
inductive Sdk (α : Type) where
  | done : α → Sdk α
  | allocate : Nat → (Option Allocation → Sdk α) → Sdk α
  | free : Option Allocation → Sdk α → Sdk α

/-- The result of a computation and the context it leaves. -/
def Sdk.run {α : Type} (heap : Heap) : Sdk α → Context → α × Context
  | .done a, c => (a, c)
  | .allocate n k, c =>
    (k (Transport.allocate heap c n).1).run heap (Transport.allocate heap c n).2
  | .free p k, c => k.run heap (Transport.free c p)

/-- Every allocation of the run is granted. -/
def Sdk.Granted {α : Type} (heap : Heap) : Sdk α → Context → Prop
  | .done _, _ => True
  | .allocate n k, c =>
    (Transport.allocate heap c n).1.isSome = true ∧
      (k (Transport.allocate heap c n).1).Granted heap (Transport.allocate heap c n).2
  | .free p k, c => k.Granted heap (Transport.free c p)

/-- `malloc` of an output buffer, the hooks first. -/
def outputBuffer (heap : Heap) (c : Context) (n : Nat) : Option Bytes :=
  if c.faults.failOutput = false ∧ c.faults.failOutputCall ≠ c.stats.outputAttempts then
    heap.output c.stats.outputAttempts n
  else none

/-- `++c.stats.outputAttempts`. -/
def Context.attempt (c : Context) : Context :=
  { c with stats.outputAttempts := c.stats.outputAttempts + 1 }

/-! ## The codec -/

abbrev SRes := Int

def szOk : SRes := 0
def szErrorInputEof : SRes := 6
def szErrorOutputEof : SRes := 7

/-- `ELzmaStatus`. -/
inductive LzmaStatus where
  | notSpecified
  | finishedWithMark
  | notFinished
  | needsMoreInput
  | maybeFinishedWithoutMark
  deriving DecidableEq

/-- The settings of `CLzmaEncProps` that are set here. -/
structure EncProps where
  level : Nat
  dictSize : Nat
  algo : Nat
  btMode : Nat
  fb : Nat
  mc : Nat
  numThreads : Nat
  lc : Nat
  lp : Nat
  pb : Nat

/-- The settings `Encode` compresses with. -/
def encProps : EncProps where
  level := 1
  dictSize := 1 <<< 20
  algo := 0
  btMode := 0
  fb := 128
  mc := 32
  numThreads := 1
  lc := 3
  lp := 0
  pb := 2

/-- What `LzmaEncode` leaves: the bytes written to `dest` and to `propsEncoded`. -/
structure Encoded where
  result : SRes
  dest : Bytes
  propsEncoded : Bytes

/-- What `LzmaDecode` leaves: the bytes written to `dest` and the number of source bytes
read. -/
structure Decoded where
  result : SRes
  dest : Bytes
  source : Nat
  status : LzmaStatus

/-- The codec: `LzmaEncode` with an end mark (settings, source, room at `dest`), and what
`LzmaDecode` does once the source is long enough (room at `dest`, source, properties). -/
structure Codec where
  encode : EncProps → Bytes → Nat → Sdk Encoded
  decodeToDic : Nat → Bytes → Bytes → Sdk Decoded

def rcInitSize : Nat := 5

def lzmaDecode (codec : Codec) (capacity : Nat) (source props : Bytes) : Sdk Decoded :=
  if source.length < rcInitSize then .done ⟨szErrorInputEof, [], 0, .notSpecified⟩
  else codec.decodeToDic capacity source props

/-! ## Checksums -/

/-- One bit of the checksum. -/
def crcBit (c : UInt32) : UInt32 :=
  (c >>> 1) ^^^ (0xEDB88320 &&& (0 - (c &&& 1)))

/-- One byte of the checksum. -/
def crcByte (c : UInt32) (b : UInt8) : UInt32 :=
  Nat.repeat crcBit 8 (c ^^^ b.toUInt32)

def crc (p : Bytes) : UInt32 :=
  ~~~(p.foldl crcByte 0xFFFFFFFF)

/-! ## Frames -/

/-- What a call leaves: its verdict, what `out` points to, the text of the error and the
stats. -/
structure Outcome where
  ok : Bool
  out : Option Bytes
  error : Option String
  stats : Stats

/-- `Fail`: nothing but the error is written. -/
def fail (out : Option Bytes) (message : String) (c : Context) : Outcome :=
  ⟨false, out, some message, c.stats⟩

/-- The number of `n` bytes at `off`, `Get(p + off, n)`. -/
def get (p : Bytes) (off n : Nat) : Nat :=
  readLE (p.drop off) n

/-- `Put(p + off, v, n)`. -/
def put (p : Bytes) (off v n : Nat) : Bytes :=
  writeAt p off (leBytes v n)

/-- The bytes a pointer views. -/
def viewed : Option View → Bytes
  | none => []
  | some v => v.bytes

def isEnvelope (p : Option View) : Bool :=
  p.isSome && 8 ≤ (viewed p).length && bytesAt (viewed p) 0 8 = magic

def decode (codec : Codec) (heap : Heap) (view : Option View) (out : Option Bytes)
    (faults : Faults) : Outcome :=
  let c : Context := ⟨{}, faults⟩
  let p := viewed view
  let n := p.length
  let raw := get p 16 8
  let packed := get p 24 8
  if out = none ∨ isEnvelope view = false ∨ n < headerSize ∨ get p 8 4 ≠ 1 ∨
      get p 12 4 ≠ headerSize then
    fail out "invalid .rigexec transport header" c
  else if raw = 0 ∨ raw ≥ maxRaw ∨ packed = 0 ∨ packed ≥ maxRaw ∨
      packed ≠ sizeSub n headerSize then
    fail out "invalid .rigexec transport lengths" c
  else if p.getD 32 0 ≠ 0x5D ∨ get p 33 4 ≠ 1 <<< 20 ∨ p.getD 37 0 ≠ 0 ∨ p.getD 38 0 ≠ 0 ∨
      p.getD 39 0 ≠ 0 then
    fail out "unsupported .rigexec transport properties" c
  else if get p 44 4 ≠ (crc (bytesAt p headerSize packed)).toNat then
    fail out "corrupt .rigexec compressed payload" c
  else
    let c := c.attempt
    if outputBuffer heap c raw = none then
      fail out "cannot decode .rigexec: out of memory" c
    else
      let run := (lzmaDecode codec raw (bytesAt p headerSize packed) (bytesAt p 32 5)).run heap c
      let decoded := run.1
      let c := run.2
      if decoded.result ≠ szOk ∨ decoded.status ≠ .finishedWithMark ∨
          decoded.dest.length ≠ raw ∨ decoded.source ≠ packed ∨
          (crc decoded.dest).toNat ≠ get p 40 4 then
        fail out "invalid .rigexec compressed stream" c
      else ⟨true, some decoded.dest, none, c.stats⟩

/-- The writes of `Encode` into its candidate: the codec's, then the rest of the header. -/
def fillFrame (candidate raw : Bytes) (encoded : Encoded) : Bytes :=
  let packed := encoded.dest.length
  let candidate := writeAt candidate headerSize encoded.dest
  let candidate := writeAt candidate 32 encoded.propsEncoded
  let candidate := writeAt candidate 0 magic
  let candidate := put candidate 8 1 4
  let candidate := put candidate 12 headerSize 4
  let candidate := put candidate 16 raw.length 8
  let candidate := put candidate 24 packed 8
  let candidate := writeAt candidate 37 [0, 0, 0]
  let candidate := put candidate 40 (crc raw).toNat 4
  put candidate 44 (crc (bytesAt candidate headerSize packed)).toNat 4

/-- `Encode`; an empty result that succeeds asks for the raw bytes. -/
def encode (codec : Codec) (heap : Heap) (view : Option View) (out : Option Bytes)
    (faults : Faults) : Outcome :=
  let c : Context := ⟨{}, faults⟩
  let raw := viewed view
  let n := raw.length
  if out = none ∨ view.isNone ∨ n = 0 ∨ n ≥ maxRaw then
    fail out "invalid .rigexec raw payload size" c
  else if n ≤ headerSize + 1 then
    ⟨true, some [], none, c.stats⟩
  else
    let c := c.attempt
    match outputBuffer heap c (n - 1) with
    | none => fail out "cannot encode .rigexec: out of memory" c
    | some candidate =>
      let run := (codec.encode encProps raw (n - headerSize - 1)).run heap c
      let encoded := run.1
      let c := run.2
      if encoded.result = szErrorOutputEof then
        ⟨true, some [], none, c.stats⟩
      else if encoded.result ≠ szOk ∨ encoded.propsEncoded.length ≠ 5 then
        fail out "cannot encode .rigexec compressed stream" c
      else
        let size := headerSize + encoded.dest.length
        let candidate := fillFrame candidate raw encoded
        let c := c.attempt
        if faults.failOutputCall = c.stats.outputAttempts then
          fail out "cannot publish .rigexec: out of memory" c
        else if heap.vector size = false then
          fail out "cannot encode .rigexec: out of memory" c
        else ⟨true, some (candidate.take size), none, c.stats⟩

end RigExec.Transport
