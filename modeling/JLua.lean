import JLua.Lib.Runs
import JLua.Lib.BinaryFloat
import JLua.Lib.ModifiedUtf8
import JLua.Lib.Monitors
import JLua.Value
import JLua.JavaObject
import JLua.Registry
import JLua.Stack
import JLua.Conversion
import JLua.RoundTrip
import JLua.Sandbox
import JLua.UserdataActions
import JLua.UserdataHeap
import JLua.TryBlock
import JLua.Exceptions
import JLua.StateFactory
import JLua.Locking
import JLua.Routing
import JLua.Lib.ObjectGraph
import JLua.UserdataValidity
import JLua.ObjectChecker
import JLua.Lib.LockOrder
import JLua.Deadlock
import JLua.Lib.FreeList
import JLua.References
import JLua.Handles
import JLua.Lib.Outcomes
import JLua.Metatables
import JLua.JavaCode
import JLua.LuaState
import JLua.LuaObject
import JLua.JLuaAPI
import JLua.StackDiscipline
import JLua.Arguments
import JLua.Lib.FirstMatch
import JLua.Overloads
import JLua.ClassDispatch
import JLua.OverloadSearch
import JLua.Lua
import JLua.Delivery
import JLua.Pushing
import JLua.Calls
import JLua.Accessors
import JLua.Scripts
import JLua.GlobalCalls
import JLua.ProxyInterfaces
import JLua.Lib.Programs
import JLua.Atomicity
import JLua.Threads
import JLua.Native
import JLua.StackTrace
import JLua.Arrays
import JLua.RegisteredMethods
import JLua.DirectCalls
import JLua.TableFields
import JLua.FieldAccess
import JLua.ErrorText
import JLua.Packages
import JLua.Lib.Gauge
import JLua.NativeHelpers
import JLua.StackRoom
import JLua.CallRoom
import JLua.Lib.Chains
import JLua.Tables
import JLua.TableEntries
import JLua.Rehash
import JLua.Traversal
import JLua.Borders
import JLua.RegistryTable
import JLua.Lib.Codecs
import JLua.Streams
import JLua.Opcodes
import JLua.Protos
import JLua.CodeCheck
import JLua.Dump
import JLua.DumpRoundTrip
import JLua.Sort
import JLua.AtomicStep
import JLua.CollectorSteps
import JLua.Sweep
import JLua.SweepSteps
import JLua.CollectorRuns
import JLua.Program
