import MirandaNG.Dbx.RoundTrip
import MirandaNG.Dbx.Settings.Coherence
import MirandaNG.Dbx.Settings.Atomic
import MirandaNG.WhatsApp.ReadSafety
import MirandaNG.WhatsApp.RoundTrip
import MirandaNG.WhatsApp.Noise
import MirandaNG.Netlib.ChunkedBody
import MirandaNG.Core.ListHistory
import MirandaNG.Core.HookDispatch
import MirandaNG.Data.UrlText
import MirandaNG.Proto.Chains
import MirandaNG.Jabber.IqHistory
import MirandaNG.Jabber.StrmMgmtLaw
import MirandaNG.Jabber.RosterHistory
import MirandaNG.Jabber.ByteStream
import MirandaNG.Jabber.PermanentHandlers
import MirandaNG.Jabber.StrmMgmtCount
import MirandaNG.Jabber.CapsDiscoInfo
import MirandaNG.Jabber.CapsHash
import MirandaNG.Jabber.Ibb
import MirandaNG.Jabber.ScramProof
import MirandaNG.DbxSqlite.Integrity
import MirandaNG.DbxSqlite.Unread
import MirandaNG.DbxSqlite.EventJson
import MirandaNG.Core.IsDuplicateEvent
import MirandaNG.Crypt.PasswordLaw
import MirandaNG.Crypt.History
import MirandaNG.Netlib.WebSocketWire
import MirandaNG.WhatsApp.SyncVersions
import MirandaNG.Core.BinBufferLaw
import MirandaNG.Chat.Serialize
import MirandaNG.Variables.Builtin
import MirandaNG.SecureIM.QueueLaw
import MirandaNG.Import.EventLaw
import MirandaNG.Import.Metas
import MirandaNG.Core.UtfAgree
import MirandaNG.Core.Wildcmp
import MirandaNG.Crypt.Accesses
import MirandaNG.MetaContacts.DesignationHistory
import MirandaNG.Dbx.CursorLaw
import MirandaNG.Clist.Membership
import MirandaNG.Clist.FindItem
import MirandaNG.Clist.Rebuild
import MirandaNG.Core.BbcodesLaw
import MirandaNG.Netlib.BodyLengths
import MirandaNG.Netlib.IeProxy
import MirandaNG.WhatsApp.Framing
import MirandaNG.SecureIM.SplitLaw
import MirandaNG.Core.IniValues
import MirandaNG.Chat.RemoveUser
import MirandaNG.Variables.Arguments
import MirandaNG.Variables.LineEnds
import MirandaNG.Variables.Aliases
import MirandaNG.Variables.Comments
import MirandaNG.Dbx.Settings.SwapContacts
import MirandaNG.Core.Services
import MirandaNG.Core.PathVariables
import MirandaNG.Core.AuthBlob
import MirandaNG.Core.ContactList
import MirandaNG.Core.CachedValues
import MirandaNG.Chat.AddEvent
import MirandaNG.NewStory.HistoryList
import MirandaNG.Db3x.ChainHistory
import MirandaNG.Irc.Receive
import MirandaNG.Irc.Message
import MirandaNG.Irc.DccSend
import MirandaNG.Irc.ColorCodes
import MirandaNG.Db3x.Settings.Law
import MirandaNG.Netlib.Socks5
