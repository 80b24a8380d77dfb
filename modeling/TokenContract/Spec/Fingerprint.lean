import TokenContract.Digest.Blake3
import TokenContract.Spec.Format

namespace TokenContract.Spec

def fingerprint (s : Spec) : String :=
  Digest.Blake3.hexOf s.canonical

theorem fingerprint_eq_of_canonical_eq {s t : Spec} (h : s.canonical = t.canonical) :
    s.fingerprint = t.fingerprint := by
  simp only [fingerprint, h]

end TokenContract.Spec
