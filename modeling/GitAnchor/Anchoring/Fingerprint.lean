import GitAnchor.Anchoring.Util

/-! Content fingerprints: a fixed-width MinHash over overlapping byte shingles, carried with
the name of its algorithm and the parameters it was computed under. -/

namespace GitAnchor.Anchoring
open GitAnchor.Substrate

structure Param where
  key : String
  value : String
deriving DecidableEq

structure Fingerprint where
  algo : String
  params : List Param
  value : Bytes
deriving DecidableEq

def MINHASH_SHINGLE_V2 : String := "minhash-shingle-v2"
def SHINGLE_LEN : Nat := 4
def NUM_HASHES : Nat := 16

def SEEDS : List UInt64 :=
  [0x9E3779B97F4A7C15, 0xC2B2AE3D27D4EB4F, 0x165667B19E3779F9, 0xFF51AFD7ED558CCD,
    0xD6E8FEB86659FD93, 0xA5A358F19D2C13B7, 0x8CB92BA72F3D8DD7, 0xDB4F0B9175AE2165,
    0xBBE05A4D9C2F137B, 0x6C8E9CF570932BD1, 0xF1357AEA2E62A9C5, 0x91E10DA5C79E7B3F,
    0xB5C0FBCFEC4D3A29, 0xE8D32A746F91C5B7, 0x47A19D3CB682F05E, 0xC6BC279692B5C323]

/-- The seed of slot `i`; the seeds repeat where there are more slots than seeds. -/
def seedOf (i : Nat) : UInt64 := SEEDS.get ⟨i % SEEDS.length, Nat.mod_lt i (by decide)⟩

def fnv1a (bytes : Bytes) : UInt64 :=
  bytes.foldl (fun hash byte => (hash ^^^ byte.toUInt64) * 0x100000001b3) 0xcbf29ce484222325

def splitmix64 (x : UInt64) : UInt64 :=
  let x := x + 0x9E3779B97F4A7C15
  let x := (x ^^^ (x >>> 30)) * 0xBF58476D1CE4E5B9
  let x := (x ^^^ (x >>> 27)) * 0x94D049BB133111EB
  x ^^^ (x >>> 31)

/-- The overlapping windows of `k` bytes. -/
def windows (k : Nat) : Bytes → List Bytes
  | [] => []
  | byte :: rest => if k ≤ rest.length + 1 then (byte :: rest).take k :: windows k rest else []

/-- A shingle lowers each slot to the hash it has under the slot's seed. -/
def foldShingle (mins : List UInt64) (shingle : Bytes) : List UInt64 :=
  let base := fnv1a shingle
  mins.zipIdx.map (fun (slot, i) =>
    let h := splitmix64 (base ^^^ seedOf i)
    if h < slot then h else slot)

def toBeBytes (value : UInt64) : Bytes :=
  [56, 48, 40, 32, 24, 16, 8, 0].map (fun shift : UInt64 => (value >>> shift).toUInt8)

def minhashShingle (bytes : Bytes) (k hashes : Nat) : Bytes :=
  let shingles := if bytes.length ≤ k then [bytes] else windows k bytes
  (shingles.foldl foldShingle (List.replicate hashes 0xFFFFFFFFFFFFFFFF)).flatMap toBeBytes

def fingerprintOf (bytes : Bytes) (algo : String) (shingleLen hashes : Nat) : Fingerprint :=
  { algo := algo
    params := [⟨"k", toString shingleLen⟩, ⟨"hashes", toString hashes⟩]
    value := minhashShingle bytes shingleLen hashes }

/-- The fingerprint that a capture records. -/
def captureFingerprint (bytes : Bytes) : Fingerprint :=
  fingerprintOf bytes MINHASH_SHINGLE_V2 SHINGLE_LEN NUM_HASHES

theorem foldShingle_length (mins : List UInt64) (shingle : Bytes) :
    (foldShingle mins shingle).length = mins.length := by
  simp only [foldShingle, List.length_map, List.length_zipIdx]

theorem foldl_foldShingle_length (shingles : List Bytes) (mins : List UInt64) :
    (shingles.foldl foldShingle mins).length = mins.length := by
  induction shingles generalizing mins with
  | nil => rfl
  | cons shingle rest ih => rw [List.foldl_cons, ih, foldShingle_length]

/-- Every fingerprint has eight bytes a slot, whatever it is taken of. -/
theorem minhashShingle_length (bytes : Bytes) (k hashes : Nat) :
    (minhashShingle bytes k hashes).length = 8 * hashes := by
  have eight (mins : List UInt64) : (mins.flatMap toBeBytes).length = 8 * mins.length := by
    induction mins with
    | nil => rfl
    | cons slot rest ih =>
      rw [List.flatMap_cons, List.length_append, ih, List.length_cons]
      have one : (toBeBytes slot).length = 8 := rfl
      omega
  rw [minhashShingle, eight, foldl_foldShingle_length, List.length_replicate]

end GitAnchor.Anchoring
