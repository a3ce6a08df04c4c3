import Borked3DS.Analysis.VMManagerInvariant
import Borked3DS.Analysis.RegionConservation
import Borked3DS.Analysis.NextThreadOrder
import Borked3DS.Analysis.HandleTables
import Borked3DS.Analysis.IpsPatches
import Borked3DS.Analysis.TimingCancellation
import Borked3DS.Analysis.ResourceAccounting
import Borked3DS.Analysis.RomFSImages
import Borked3DS.Analysis.BpsPatches
import Borked3DS.Analysis.LzssCode
import Borked3DS.Analysis.RomFSReads
import Borked3DS.Analysis.PathContainment
import Borked3DS.Analysis.PacketRoundTrip
import Borked3DS.Analysis.RoomMembership
import Borked3DS.Analysis.CheatFiles
import Borked3DS.Analysis.ArticFiles
import Borked3DS.Analysis.CIAWrites
import Borked3DS.Analysis.RoomRouting
import Borked3DS.Analysis.CROTables
import Borked3DS.Analysis.BeaconRoundTrip
import Borked3DS.Analysis.UdsDelivery
import Borked3DS.Analysis.UdsMembership
import Borked3DS.Analysis.IpcBounds
import Borked3DS.Analysis.MappingPermissions
import Borked3DS.Analysis.MortonRoundTrip
import Borked3DS.Analysis.CommandLists
import Borked3DS.Analysis.InterruptRelays
import Borked3DS.Analysis.CommandQueues
import Borked3DS.Analysis.PacketQueues
import Borked3DS.Analysis.MoviePlayback
import Borked3DS.Analysis.MovieStates
import Borked3DS.Analysis.ConfigRuns
import Borked3DS.Analysis.FirstFit
import Borked3DS.Analysis.QueriedRuns
import Borked3DS.Analysis.RequestHandles
import Borked3DS.Analysis.ObjectGrants
import Borked3DS.Interface.PacketCodec
import Borked3DS.Analysis.GdbRegisters
import Borked3DS.Interface.MappingEffects
import Borked3DS.Analysis.CycleConversions
import Borked3DS.Analysis.PeriodicTimers
import Borked3DS.Analysis.SemaphoreSlots
import Borked3DS.Analysis.TitleUpdates
import Borked3DS.Analysis.RomFSWalk
import Borked3DS.Analysis.BlockAccesses
import Borked3DS.Analysis.ThreadStorage
import Borked3DS.Analysis.CheatRuns
import Borked3DS.Analysis.ParamPackages
import Borked3DS.Analysis.RingQueues
import Borked3DS.Analysis.ClearValues
import Borked3DS.Analysis.ThreadQueues
import Borked3DS.Analysis.KeyArithmetic
import Borked3DS.Analysis.AdpcmDecoding
