import Sauvegarde.Extern.Glib

/-!
# Queries

`query_t`: whose files are asked for, and which of them.
-/

namespace Sauvegarde

/-- `query_t`. -/
@[ext] structure QueryT where
  hostname : Option CString
  uid : Option CString
  gid : Option CString
  owner : Option CString
  group : Option CString
  filename : Option CString
  date : Option CString
  afterdate : Option CString
  beforedate : Option CString
  latest : Bool
deriving DecidableEq

end Sauvegarde
