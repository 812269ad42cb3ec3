import ExtentLedger.Consumer.StoredBounds
import ExtentLedger.Consumer.TileCache
import ExtentLedger.Listener.Roster

/-!
# The standard listeners

The tile cache first, then the stored bounds, over one table with the standard transforms.
-/

namespace ExtentLedger

variable {σ K : Type} [Coordinate K] [Journal σ K]

def Roster.standard (m : Mercator K) (segments : SegmentRegistry σ) (truncate : Truncator σ K)
    (catalog : Catalog σ K) : Except Fault (Roster σ K) := do
  let table := TransformTable.standard m
  let cache ← TileCache.observer TileCache.defaultConfig segments truncate table
  let bounds ← StoredBounds.observer StoredBounds.defaultConfig catalog table
  return (Roster.empty.register cache.listener).register bounds.listener

end ExtentLedger
