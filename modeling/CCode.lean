import CCode.Gatt.Allocation
import CCode.Gatt.Discovery
import CCode.Gatt.Encoding
import CCode.Gatt.Mtu
import CCode.Gatt.Replies
import CCode.Gatt.Malformed
import CCode.Gatt.Descriptors
import CCode.Gatt.ReportMap
import CCode.MemShare.IpcCmd
import CCode.MemShare.Message
import CCode.MemShare.Coherence
import CCode.Ancs.Reassembly
import CCode.Ancs.Safety
import CCode.Ota.Bounds
import CCode.Ota.Session
import CCode.ConnectFour.Sync
import CCode.ConnectFour.Exact
import CCode.TicTacToe.Resync
import CCode.TicTacToe.Exact
import CCode.TicTacToe.Server
import CCode.MsgHandle.Release
import CCode.DataBus.Framing
import CCode.DataBus.Lifecycle
import CCode.Rb.Destroy
import CCode.Rb.Enumerate
import CCode.Gatt.ReportRef
import CCode.MemShare.Bounds
import CCode.MemShare.RecvQueue
import CCode.Ota.Version
import CCode.ConnectFour.Choice
import CCode.TicTacToe.Choice
import CCode.FourInARow.Exact
import CCode.General.Wav
import CCode.General.Resample
import CCode.Clash.Fill
import CCode.Clash.Newlines
import CCode.Ancs.Agreement
import CCode.LedCtrl.Leftover
import CCode.Lescan.Eir
import CCode.Btsnoop.Log
import CCode.Btsnoop.RoundTrip
import CCode.MemShare.MemManage
import CCode.CodeAna.Agreement
import CCode.Digest.Sha512
import CCode.Digest.Sha1
import CCode.Digest.Md5
import CCode.Aes.OnTheFly
import CCode.General.Base64
import CCode.Csv.Runs
import CCode.P2pPunch.Punch
