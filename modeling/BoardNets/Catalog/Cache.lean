import BoardNets.Catalog.Linking

/-! A cache of linked catalogs. It keeps the last catalog of each source and links again when the
source has a new version. Every catalog it links gets a number of its own. -/
namespace BoardNets

/-- A provider of catalog data. The version changes whenever the data does. -/
structure Provider where
  name : String
  version : UInt64
  snapshot : Snapshot

/-- Names the data source; the cache keeps one entry for each. -/
def Provider.source (p : Provider) : String := "static:" ++ p.name

structure CacheEntry where
  version : UInt64
  number : Nat
  catalog : Catalog

structure Cache where
  entries : SortedMap String CacheEntry := ∅
  next : Nat := 0

namespace Cache

/-- The entry that answers the provider. A failure to link leaves the cache alone. -/
def get (cache : Cache) (p : Provider) : Except CatalogError CacheEntry × Cache :=
  let load := fun () =>
    match Catalog.ofSnapshot p.snapshot with
    | .error e => (.error e, cache)
    | .ok catalog =>
      let entry := ⟨p.version, cache.next, catalog⟩
      (.ok entry, ⟨cache.entries.insert p.source entry, cache.next + 1⟩)
  match cache.entries.find? p.source with
  | some entry => if entry.version = p.version then (.ok entry, cache) else load ()
  | none => load ()

def cachedVersion (cache : Cache) (p : Provider) : Option UInt64 :=
  (cache.entries.find? p.source).map CacheEntry.version

def invalidate (cache : Cache) : Cache := { cache with entries := ∅ }

end Cache
end BoardNets
