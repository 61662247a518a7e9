import PaintedImages.Digest.Sha256

/-! Fingerprints tell payloads apart. They are digests; people are shown the first eight bytes. -/
namespace PaintedImages

structure Fingerprint where
  digest : Bytes
  deriving DecidableEq, Repr

namespace Fingerprint

def of (payload : Bytes) : Fingerprint := ⟨Sha256.digest payload⟩

def label (f : Fingerprint) : String := Bytes.hex (f.digest.take 8)

end Fingerprint
end PaintedImages
