import Topomalloc.SizeTable
import Topomalloc.Sampler
import Topomalloc.Sampling
import Topomalloc.Extent.Fit
import Topomalloc.Extent.Canary
import Topomalloc.Extent.Api
import Topomalloc.Pressure
import Topomalloc.Arena.Credits
import Topomalloc.Arena.Handles
import Topomalloc.Owners
import Topomalloc.Large.Served
import Topomalloc.Huge.Reserve
import Topomalloc.Huge.Interleave
import Topomalloc.Numa.Refresh
import Topomalloc.Race.Vending
import Topomalloc.Hooks.Isolation
import Topomalloc.Hooks.Provider
import Topomalloc.Lock
import Topomalloc.Fork.Window
import Topomalloc.Stats.Surface
import Topomalloc.Rseq.Atomic
