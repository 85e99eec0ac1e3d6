import NovaOS.Deb.Bounds
import NovaOS.Drivers.Mouse
import NovaOS.Fs.Accounts
import NovaOS.Fs.FailedWrites
import NovaOS.Fs.Namespace
import NovaOS.Fs.Reboots
import NovaOS.Fs.Secrecy
import NovaOS.Heap.Sizes
import NovaOS.Loader.Lookup
import NovaOS.Loader.Segments
import NovaOS.Loader.Tls
import NovaOS.Net.Bounds
import NovaOS.Net.Fin
import NovaOS.Net.TransmitRing
import NovaOS.Process.Brk
import NovaOS.Process.Channels
import NovaOS.Process.Condition
import NovaOS.Process.Delivery
import NovaOS.Process.EventCounter
import NovaOS.Process.FailedCalls
import NovaOS.Process.ForkIsolation
import NovaOS.Process.Registrations
import NovaOS.Tools.Bridge
import NovaOS.Ui.Calculator
