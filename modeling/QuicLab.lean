import QuicLab.Admin.Attempts
import QuicLab.Admin.Credentials
import QuicLab.Admin.Disable
import QuicLab.Admin.Enroll
import QuicLab.Admin.Handoff
import QuicLab.Admin.Logout
import QuicLab.Admin.Metering
import QuicLab.Admin.Names
import QuicLab.Admin.Sessions
import QuicLab.Admin.Window
import QuicLab.Android.Generations
import QuicLab.Android.Import
import QuicLab.Android.Migration
import QuicLab.Android.MultiplePlan
import QuicLab.Android.Routes
import QuicLab.Android.VpnProfiles
import QuicLab.Awg.Disclosure
import QuicLab.Awg.Order
import QuicLab.Awg.Secrecy
import QuicLab.AwgServer.Activity
import QuicLab.AwgServer.Client
import QuicLab.AwgServer.Reconcile
import QuicLab.DebugCapture.Convert
import QuicLab.DebugCapture.Dissector
import QuicLab.DebugCapture.Flow
import QuicLab.DebugCapture.Isolation
import QuicLab.DebugCapture.Launch
import QuicLab.DebugCapture.Stream
import QuicLab.DebugCapture.WellFormed
import QuicLab.EchoAwg.Admissions
import QuicLab.EchoAwg.Server
import QuicLab.Gateway.Completeness
import QuicLab.Gateway.Delivery
import QuicLab.Gateway.Framing
import QuicLab.Gateway.Server
import QuicLab.Go.X509
import QuicLab.Labcert.Reload
import QuicLab.Mobile.Sockets
import QuicLab.Scripts.Install
import QuicLab.Scripts.Network
import QuicLab.Scripts.Transit
import QuicLab.Server.Config
