import KernelCore.Heap.Layout
import KernelCore.Kernel.StateLemmas
import KernelCore.Proofs.Contract
import KernelCore.Proofs.Device.Transport
import KernelCore.Proofs.Heap.Alignment
import KernelCore.Proofs.Heap.Auditing
import KernelCore.Proofs.Heap.BackLinks
import KernelCore.Proofs.Heap.Charts
import KernelCore.Proofs.Heap.Concurrence
import KernelCore.Proofs.Heap.Exchange
import KernelCore.Proofs.Heap.FirstFit
import KernelCore.Proofs.Heap.Guarding
import KernelCore.Proofs.Heap.Headers
import KernelCore.Proofs.Heap.Histories
import KernelCore.Proofs.Heap.Isolation
import KernelCore.Proofs.Heap.Joining
import KernelCore.Proofs.Heap.Judging
import KernelCore.Proofs.Heap.Layouts
import KernelCore.Proofs.Heap.Links
import KernelCore.Proofs.Heap.Marks
import KernelCore.Proofs.Heap.Operations
import KernelCore.Proofs.Heap.Parcels
import KernelCore.Proofs.Heap.Passing
import KernelCore.Proofs.Heap.Planned
import KernelCore.Proofs.Heap.Refusals
import KernelCore.Proofs.Heap.Rejections
import KernelCore.Proofs.Heap.Resizing
import KernelCore.Proofs.Heap.RoundTrip
import KernelCore.Proofs.Heap.Scrutiny
import KernelCore.Proofs.Heap.Soundness
import KernelCore.Proofs.Heap.Strays
import KernelCore.Proofs.Heap.Tenancy
import KernelCore.Proofs.Heap.Trades
import KernelCore.Proofs.Heap.Twins
import KernelCore.Proofs.Heap.Walks
import KernelCore.Proofs.Heap.WildLinks
import KernelCore.Proofs.Kernel.Arrivals
import KernelCore.Proofs.Kernel.Contexts
import KernelCore.Proofs.Kernel.Continuity
import KernelCore.Proofs.Kernel.Contract
import KernelCore.Proofs.Kernel.Course
import KernelCore.Proofs.Kernel.Creation
import KernelCore.Proofs.Kernel.Deeds
import KernelCore.Proofs.Kernel.FallingAsleep
import KernelCore.Proofs.Kernel.Halting
import KernelCore.Proofs.Kernel.Households
import KernelCore.Proofs.Kernel.Housing
import KernelCore.Proofs.Kernel.Leaving
import KernelCore.Proofs.Kernel.Lending
import KernelCore.Proofs.Kernel.Masking
import KernelCore.Proofs.Kernel.Ownership
import KernelCore.Proofs.Kernel.Programs
import KernelCore.Proofs.Kernel.Promotions
import KernelCore.Proofs.Kernel.Punctuality
import KernelCore.Proofs.Kernel.Requests
import KernelCore.Proofs.Kernel.Scheduling
import KernelCore.Proofs.Kernel.Sleeping
import KernelCore.Proofs.Kernel.Slumber
import KernelCore.Proofs.Kernel.Story
import KernelCore.Proofs.Kernel.Succession
import KernelCore.Proofs.Kernel.Tables
import KernelCore.Proofs.Kernel.Threads
import KernelCore.Proofs.Kernel.Upkeep
import KernelCore.Proofs.Kernel.Vigil
import KernelCore.Proofs.Task.Aspects
import KernelCore.Proofs.Task.Changes
import KernelCore.Proofs.Task.Coherence
import KernelCore.Proofs.Task.Fairness
import KernelCore.Proofs.Task.Policy
import KernelCore.Proofs.Task.Ring
import KernelCore.Proofs.Task.Selection
import KernelCore.Proofs.Task.Sleepers
import KernelCore.Proofs.Task.Stacks
import KernelCore.Proofs.Task.Standby
import KernelCore.Proofs.Word.Multiples
import KernelCore.Session.DeviceRequest
import KernelCore.Session.KernelRequest
import KernelCore.Session.TableRequest
import KernelCore.Task.Roster
import KernelCore.Task.TableLemmas
