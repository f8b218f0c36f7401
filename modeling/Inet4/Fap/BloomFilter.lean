import Inet4.Kernel
import Mathlib.Data.BitVec

/-!
# The Bloom filter of FAP

`BloomFilter<uint32_t>` with the hash functions behind it.  The parameters `m` and `k` and the
vector `Filter` are independent members, and `ResizeFilter` changes the vector only, so that the bit
that an operation computes from `m` may lie outside of it.  Such an access is undefined behaviour
here.

`MurmurHash3_x64_128` is given for keys of four bytes, for which its body has no blocks.  The hash
of the C++ library behind the signature is an argument.
-/

namespace Inet4.Fap

/-- `Ipv4Address`, by its value `getInt`. -/
abbrev Ipv4Address := BitVec 32

/-- `std::string`. -/
abbrev CString := List Char

def fmix64 (k : BitVec 64) : BitVec 64 :=
  let k := k ^^^ (k >>> 33)
  let k := k * 0xff51afd7ed558ccd
  let k := k ^^^ (k >>> 33)
  let k := k * 0xc4ceb9fe1a85ec53
  k ^^^ (k >>> 33)

/-- `MurmurHash3_x64_128` with the seed 0, of the four bytes of an address in little-endian
order. -/
def murmurHash3_x64_128 (key : Ipv4Address) : BitVec 64 × BitVec 64 :=
  let k1 : BitVec 64 := key.zeroExtend 64
  let k1 := (k1 * 0x87c37b91114253d5).rotateLeft 31 * 0x4cf5ad432745937f
  let h1 : BitVec 64 := k1 ^^^ 4
  let h2 : BitVec 64 := 4
  let h1 := h1 + h2
  let h2 := h2 + h1
  let h1 := fmix64 h1
  let h2 := fmix64 h2
  let h1 := h1 + h2
  let h2 := h2 + h1
  (h1, h2)

/-- `BloomFilter<uint32_t>`. -/
structure BloomFilter where
  m : BitVec 32 := 512
  k : BitVec 32 := 3
  Filter : List Bool := List.replicate 512 false
  deriving DecidableEq

namespace BloomFilter

/-- `BloomFilter(unsigned m, unsigned k)`. -/
def ofParameters (m k : BitVec 32) : BloomFilter where
  m
  k
  Filter := List.replicate m.toNat false

def nthHash (n : BitVec 8) (hashA hashB filterSize : BitVec 64) : BitVec 64 :=
  (hashA + n.zeroExtend 64 * hashB) % filterSize

variable (f : BloomFilter)

/-- The index that `Insert` and `Check` compute in round `i` and with which they access
`Filter`.  The `int` `i` is incremented afterwards: `Check` does not stop in the round of the last
`int`, of which the bit is that of round 255. -/
def position (item : Ipv4Address) (i : ℕ) : Except Fault ℕ :=
  let hashValues := murmurHash3_x64_128 item
  let index := (nthHash (BitVec.ofNat 8 i) hashValues.1 hashValues.2 (f.m.zeroExtend 64)).toNat
  if f.m ≠ 0 ∧ index < f.Filter.length ∧ i + 1 < 2 ^ 31 then .ok index
  else .error .undefinedBehaviour

/-- The loop of `Insert`, from round `i` on. -/
def insertFrom (f : BloomFilter) (item : Ipv4Address) : ℕ → ℕ → Except Fault BloomFilter
  | 0, _ => .ok f
  | rounds + 1, i => do
    let index ← f.position item i
    insertFrom { f with Filter := f.Filter.set index true } item rounds (i + 1)

def insert (item : Ipv4Address) : Except Fault BloomFilter :=
  f.insertFrom item f.k.toNat 0

/-- The loop of `Check`, from round `i` on. -/
def checkFrom (f : BloomFilter) (item : Ipv4Address) : ℕ → ℕ → Except Fault Bool
  | 0, _ => .ok true
  | rounds + 1, i => do
    let index ← f.position item i
    if f.Filter.getD index false then f.checkFrom item rounds (i + 1) else return false

def check (item : Ipv4Address) : Except Fault Bool :=
  f.checkFrom item f.k.toNat 0

/-- `ResizeFilter`.  A negative size is a `std::length_error`. -/
def resizeFilter (m : ℤ) : Except Fault BloomFilter :=
  if 0 ≤ m then .ok { f with Filter := List.replicate m.toNat false } else .error .runtimeError

def convert (value : CString) : Except Fault BloomFilter :=
  if value.length ≤ f.Filter.length ∧ value.length < 2 ^ 31 then
    .ok { f with Filter := value.map (fun c ↦ decide (c ≠ '0')) ++ f.Filter.drop value.length }
  else .error .undefinedBehaviour

def invert : CString := f.Filter.map fun bit ↦ if bit then '1' else '0'

/-- `getSignature`; `hashfunc1` is `std::hash<std::string>`. -/
def getSignature (hashfunc1 : CString → BitVec 64) (f : BloomFilter) : BitVec 32 :=
  (hashfunc1 f.invert + (f.k * f.m).zeroExtend 64).truncate 32

/-- `operator+`.  Filters with different parameters are not merged. -/
def add (f g : BloomFilter) : Except Fault BloomFilter :=
  if f.m ≠ g.m ∨ f.k ≠ g.k then .ok f
  else
    let m := f.m.toNat
    if m ≤ f.Filter.length ∧ m ≤ g.Filter.length ∧ m < 2 ^ 31 then
      .ok { f with
        Filter := List.zipWith (· || ·) (f.Filter.take m) (g.Filter.take m) ++ f.Filter.drop m }
    else .error .undefinedBehaviour

end BloomFilter

end Inet4.Fap
