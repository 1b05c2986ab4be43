import MoT.Lib.CMemory
import MoT.Lib.Table
import MoT.Lib.Transition
import MoT.Protocol
import MoT.Crypto
import MoT.Storage
import MoT.Clients
import MoT.Handlers
import MoT.Server
import MoT.Effects
import MoT.Services
import MoT.Friendship
import MoT.Roles
import MoT.History
import MoT.Routing
import MoT.Outsiders
import MoT.PayloadBounds
import MoT.Guest
import MoT.Connections
import MoT.Delivery
import MoT.Private
import MoT.Accounts
import MoT.References
import MoT.Lib.Framing
import MoT.Wire
import MoT.Payloads
import MoT.NetworkThread
import MoT.Listings
import MoT.Creation
import MoT.Fields
import MoT.Notifications
import MoT.Profile
import MoT.Residue
import MoT.Atomicity
import MoT.ChatView
import MoT.Cursors
import MoT.StateLock
import MoT.Unread
import MoT.Acceptance
import MoT.Codec
import MoT.Config
import MoT.ConfigFile
import MoT.GroupForm
import MoT.Requests
import MoT.ChatBuffer
import MoT.ChatWindow
import MoT.Admission
import MoT.Chronicle
import MoT.EventLoop
import MoT.Remembered
import MoT.Contacts
import MoT.Exchange
import MoT.Conversations
