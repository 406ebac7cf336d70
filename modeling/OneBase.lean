import OneBase.Storage.DiskManager
import OneBase.Buffer.BufferPoolManager
import OneBase.Buffer.PoolInvariant
import OneBase.Buffer.TransparentCache
import OneBase.Concurrency.LockManager
import OneBase.Concurrency.LockSystem
import OneBase.Concurrency.LockSafety
import OneBase.Concurrency.TwoPhaseLocking
import OneBase.Concurrency.LockAccounting
import OneBase.Storage.TablePage
import OneBase.Storage.PageStore
import OneBase.Storage.HeapMap
import OneBase.Storage.Tuple
import OneBase.Catalog.Catalog
import OneBase.Catalog.Consistency
import OneBase.Execution.Scan
import OneBase.Execution.Modify
import OneBase.Execution.IndexAgreement
import OneBase.Execution.TupleLayout
import OneBase.Execution.Expressions
import OneBase.Optimizer.SeqScanToIndexScan
import OneBase.Server.Protocol
import OneBase.Execution.Joins
import OneBase.Server.ResultText
import OneBase.Optimizer.FloatJoin
import OneBase.Optimizer.NLJToHashJoin
import OneBase.Concurrency.WakeUps
import OneBase.Buffer.PageGuard
import OneBase.Index.BPlusTree
import OneBase.Index.InsertRefines
import OneBase.Index.Capacity
import OneBase.Index.Latches
import OneBase.Buffer.LRUKPolicy
import OneBase.Buffer.PoolFailures
import OneBase.Execution.InsertSelect
import OneBase.Execution.Update
import OneBase.Concurrency.TransactionManager
import OneBase.Execution.Aggregation
import OneBase.Execution.GroupAggregates
import OneBase.Execution.Sort
import OneBase.Binder.Binder
import OneBase.Binder.JoinColumns
import OneBase.Storage.InsertFailures
import OneBase.Execution.UpdateOnce
import OneBase.Execution.UpdateScans
import OneBase.Execution.DropIndexes
import OneBase.Execution.ExactArithmetic
import OneBase.Binder.BoundExpressions
import OneBase.Binder.SelectList
import OneBase.Binder.OrderByGroup
import OneBase.Index.SiblingRotation
import OneBase.Index.LeafStep
import OneBase.Storage.TupleBytes
import OneBase.Catalog.Histories
import OneBase.Binder.FromList
import OneBase.Binder.InsertItems
import OneBase.Index.TreeOnPool
import OneBase.Concurrency.Serializability
import OneBase.Concurrency.LockOrder
import OneBase.Buffer.Durability
import OneBase.Storage.HeapOnPool
import OneBase.Server.Session
import OneBase.Optimizer.OptimizePlan
import OneBase.Engine.Statements
import OneBase.Binder.Meaning
import OneBase.Engine.InsertStatements
