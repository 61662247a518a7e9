import PaintedImages.Extraction.Options
import PaintedImages.XObject
import PaintedImages.Record
import PaintedImages.Fingerprint

/-! Collecting images. Each payload is recorded once, at its first occurrence; payloads are told
apart by fingerprint. An image whose payload cannot be had leaves the collection as it was. -/
namespace PaintedImages

structure Collector where
  policy : DecodePolicy
  defaultFormat : String
  sizeLimit : Nat
  records : List Record := []
  seen : List Fingerprint := []
  deriving DecidableEq, Repr

inductive Collected where
  | added (index : Nat)
  | duplicate (fingerprint : Fingerprint)
  deriving DecidableEq, Repr

namespace Collector

def empty (options : Options) : Collector :=
  ⟨options.policy, options.defaultFormat, options.sizeLimit, [], []⟩

def payload (c : Collector) (image : Image) : Traced (Except Fault Bytes) :=
  match c.policy with
  | .raw => .silent (.ok image.content)
  | .unfiltered => image.unfiltered c.sizeLimit

def format (c : Collector) (image : Image) : String := image.suffix?.getD c.defaultFormat

def add (c : Collector) (image : Image) (payload : Bytes) : Collected × Collector :=
  let fingerprint := Fingerprint.of payload
  if c.seen.contains fingerprint then (.duplicate fingerprint, c)
  else
    (.added c.records.length,
      { c with
        records := c.records ++ [Record.encode (c.format image) payload]
        seen := fingerprint :: c.seen })

def collect (c : Collector) (image : Image) : Traced (Except Fault (Collected × Collector)) :=
  (c.payload image).map fun result => result.map (c.add image)

end Collector
end PaintedImages
