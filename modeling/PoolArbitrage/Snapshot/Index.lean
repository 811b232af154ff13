import PoolArbitrage.Snapshot.Entry

/-!
# Looking pools and swaps up

**Pools** are filed by their address and by their tag. A pool whose address or tag is taken is
refused (`PoolIndex.file?`).

**Swaps** are filed three times: by the token they sell, by the token they buy, and by both
(`SwapIndex`). Each file is kept in ascending order of its key, and under one key in the order of
the pools' tags, so the swaps of a key stand together (`SwapFile.range`).
-/

namespace PoolArbitrage

/-! ## Pools -/

/-- The pools, filed by address and by tag. -/
structure PoolIndex where
  byAddress : Table String PoolEntry := []
  byTag : Table Nat PoolEntry := []
  deriving Inhabited

/-- Files a pool, unless its address or its tag is taken. -/
def PoolIndex.file? (i : PoolIndex) (p : PoolEntry) : Option PoolIndex :=
  if i.byAddress.contains p.address || i.byTag.contains p.tag then none
  else some
    { byAddress := i.byAddress.insert p.address p
      byTag := i.byTag.insert p.tag p }

/-! ## Swaps -/

namespace Swap

def sourceKey (w : Swap) : List Token := [w.sells]

def targetKey (w : Swap) : List Token := [w.buys]

def pairKey (w : Swap) : List Token := [w.sells, w.buys]

end Swap

/-- Swaps in ascending order of a key, and under one key in the order of their pools. -/
structure SwapFile (key : Swap → List Token) where
  swaps : List Swap := []
  deriving Inhabited

namespace SwapFile

variable {key : Swap → List Token}

/-- `v` may stand before `w`. -/
def notAfter (key : Swap → List Token) (v w : Swap) : Bool :=
  key v < key w || (key v == key w && v.pool.tag ≤ w.pool.tag)

/-- A swap put behind those that may stand before it. -/
def place (key : Swap → List Token) (w : Swap) : List Swap → List Swap
  | [] => [w]
  | v :: vs => if notAfter key v w then v :: place key w vs else w :: v :: vs

def insert (f : SwapFile key) (w : Swap) : SwapFile key := { swaps := place key w f.swaps }

/-- The swaps of a key: from the first that is not below it up to the first above it. -/
def range (f : SwapFile key) (k : List Token) : List Swap :=
  (f.swaps.dropWhile fun w => key w < k).takeWhile fun w => !(k < key w : Bool)

end SwapFile

/-- The swaps, filed by the token sold, by the token bought and by both. -/
structure SwapIndex where
  bySource : SwapFile Swap.sourceKey := {}
  byTarget : SwapFile Swap.targetKey := {}
  byPair : SwapFile Swap.pairKey := {}
  deriving Inhabited

def SwapIndex.insert (i : SwapIndex) (w : Swap) : SwapIndex :=
  { bySource := i.bySource.insert w
    byTarget := i.byTarget.insert w
    byPair := i.byPair.insert w }

end PoolArbitrage
