import AegisToken.Core.SlotRecency
import AegisToken.Core.FlashLayout
import AegisToken.Applets.BlobCrash
import AegisToken.Applets.OpenPgpFailClosed
import AegisToken.Applets.OpenPgpSignatures
import AegisToken.Applets.OathFailClosed
import AegisToken.Applets.OathIncreasing
import AegisToken.Applets.OathRequests
import AegisToken.Applets.CardSession
import AegisToken.Host.Commands
import AegisToken.Core.Management
import AegisToken.Core.UpdateStaging
import AegisToken.Core.FailedWrites
import AegisToken.Core.Checksum
import AegisToken.Applets.PivRefinement
import AegisToken.Firmware.Listing
import AegisToken.Firmware.Reset
import AegisToken.Host.Exchanges
import AegisToken.Applets.OpenPgpKeys
import AegisToken.Applets.Pw1Changes
import AegisToken.Applets.TlvCodec
