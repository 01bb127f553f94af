import CosmosDb.Lib.Lex
import CosmosDb.Lib.BigEndian
import CosmosDb.Lib.SortedMap
import CosmosDb.Lib.Iterator
import CosmosDb.Lib.Chan
import CosmosDb.Lib.Cursor
import CosmosDb.Lib.Machine
import CosmosDb.Lib.Slice
import CosmosDb.Lib.RWMutex
import CosmosDb.Model.Basic
import CosmosDb.Model.DB
import CosmosDb.Model.MapDBRefinement
import CosmosDb.Model.PrefixDB
import CosmosDb.Model.PrefixRefinement
import CosmosDb.Model.PrefixNamespaces
import CosmosDb.Model.MemDB
import CosmosDb.Model.MemDBIterator
import CosmosDb.Model.MemDBGoroutine
import CosmosDb.Model.MemDBRefinement
import CosmosDb.Model.BackendIterator
import CosmosDb.Model.BackendIteratorRange
import CosmosDb.Model.TreeDBIterator
import CosmosDb.Model.TreeDB
import CosmosDb.Model.TreeDBBatch
import CosmosDb.Model.TreeDBClose
import CosmosDb.Model.TreeDBRefinement
import CosmosDb.Model.KeyArena
import CosmosDb.Model.Backends
import CosmosDb.Model.BackendsRefinement
import CosmosDb.Model.TreeDBVisibility
import CosmosDb.Model.Registry
import CosmosDb.Model.MemDBConcurrency
import CosmosDb.Model.TreeDBConcurrency
import CosmosDb.Model.TreeDBSnapshot
