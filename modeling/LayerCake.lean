import LayerCake.Effects.Program
import LayerCake.Effects.System
import LayerCake.Bubblebox.Spawn.Errors
import LayerCake.Bubblebox.Paths
import LayerCake.Bubblebox.Spawn.Wire
import LayerCake.Meowix.Capabilities
import LayerCake.Meowix.Transfer
import LayerCake.Meowix.NetlinkAck
import LayerCake.Bubblebox.Mounts
import LayerCake.Bubblebox.Command
import LayerCake.Bubblebox.Spawn.Fd
import LayerCake.Bubblebox.Spawn.Report
import LayerCake.Bubblebox.Spawn.Teardown
import LayerCake.Store.Directory
import LayerCake.Store.Hash
import LayerCake.Store.Insert
import LayerCake.Store.Entries
import LayerCake.Store.Open
import LayerCake.Bubblebox.Spawn.Layout
import LayerCake.Bubblebox.Cgroups.Handover
import LayerCake.Meowix.NetlinkMessage
import LayerCake.Bubblebox.Spawn.Namespace
import LayerCake.Bubblebox.UpperDirs
import LayerCake.Bubblebox.HostFile
import LayerCake.Bubblebox.Sandbox.Spawned
import LayerCake.Meowix.Loopback
import LayerCake.Bbx.Main
