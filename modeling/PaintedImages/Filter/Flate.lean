import PaintedImages.Filter.Inflate
import PaintedImages.Message

/-! Deflate data in a frame: two bytes of header before it and a checksum after it. Data that ends
too early gives what could be read of it; data without the frame is read bare. Where bits are
corrupt or the checksum is wrong nothing is kept, which is so of output that fits the window of
32 KiB. A longer output is handed over in pieces before that, by the sizes of the reader's buffers;
what is kept of such a one is not modelled. -/
namespace PaintedImages.Flate
open Inflate

def isHeader (method flags : UInt8) : Bool :=
  method.toNat % 16 == 8 && method.toNat / 16 ≤ 7 &&
    (method.toNat * 256 + flags.toNat) % 31 == 0 && !flags.toNat.testBit 5

def checksum (output : Array UInt8) : Nat :=
  let sums := output.foldl (fun s b => let a := (s.1 + b.toNat) % 65521; (a, (s.2 + a) % 65521))
    (1, 0)
  sums.2 * UInt16.size + sums.1

def checked (bs : Bits) : Inflated :=
  let result := inflate bs
  match result.ending with
  | .complete rest =>
    let trailer := (rest.drop (rest.length % 8)).take 32
    if trailer.length < 32 then ⟨result.output, .starved⟩
    else if trailer = bits (Bytes.ofNat 4 (checksum result.output)) then result
    else ⟨result.output, .refused⟩
  | _ => result

def framed (input : Bytes) : Inflated :=
  match input with
  | method :: flags :: rest =>
    if isHeader method flags then checked (bits rest) else ⟨#[], .refused⟩
  | _ => ⟨#[], .starved⟩

inductive Yield where
  | whole (output : Bytes)
  | part (output : Bytes)
  | nothing (cause : DeflateFault)
  deriving DecidableEq, Repr

/-- Only the end of the input leaves a part behind; output before corrupt bits is given up. -/
def Inflated.yield (r : Inflated) : Yield :=
  match r.ending with
  | .complete _ => .whole r.output.toList
  | .starved => if r.output.isEmpty then .nothing .incomplete else .part r.output.toList
  | .refused => .nothing .corrupt

def bare (input : Bytes) : Except DecodeFault Bytes :=
  match Inflated.yield (inflate (bits input)) with
  | .whole output => .ok output
  | .part output => .ok output
  | .nothing cause => .error (.deflate cause)

def partialNote (count : Nat) : Message :=
  ⟨.warning, s!"FlateDecode partial recovery: kept {count} bytes before error: " ++
    DeflateFault.incomplete.message⟩

def retryNote (cause : DeflateFault) : Message :=
  ⟨.debug, s!"zlib inflate failed ({cause.message}), retrying as raw deflate"⟩

def decode (input : Bytes) : Traced (Except DecodeFault Bytes) :=
  match Inflated.yield (framed input) with
  | .whole output => ⟨.ok output, []⟩
  | .part output => ⟨.ok output, [partialNote output.length]⟩
  | .nothing cause => ⟨bare input, [retryNote cause]⟩

end PaintedImages.Flate
