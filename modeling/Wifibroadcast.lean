import Wifibroadcast.Crypto.Sodium
import Wifibroadcast.Crypto.Encryption
import Wifibroadcast.Crypto.RoundTrip
import Wifibroadcast.Crypto.Rekey
import Wifibroadcast.Crypto.Symbolic
import Wifibroadcast.Crypto.Link
import Wifibroadcast.Transmitter.Model
import Wifibroadcast.Transmitter.Keys
import Wifibroadcast.Transmitter.Timing
import Wifibroadcast.Transmitter.Counters
import Wifibroadcast.HelperSources.SocketHelper
import Wifibroadcast.HelperSources.UDPReceiver
import Wifibroadcast.TxRx.RadioPort
import Wifibroadcast.TxRx.Delivery
import Wifibroadcast.Fec.Ssse3
