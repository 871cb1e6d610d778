import SimpleServ.RequestProcessing.ConnectionHandler
import SimpleServ.Utility.LockFreeQueue
import SimpleServ.Server.TlsServer
import SimpleServ.Http.Extension
import SimpleServ.Http.HeadGet
import SimpleServ.Utility.Url
import SimpleServ.Utility.SharedQueue
import SimpleServ.Utility.DiskHistory
import SimpleServ.Http.Confinement
import SimpleServ.Http.ResponseText
import SimpleServ.Http.LeadingSpace
import SimpleServ.Utility.Escapes
import SimpleServ.Utility.FetcherHistory
import SimpleServ.Utility.FileEncoder
import SimpleServ.Http.Restart
import SimpleServ.Server.ServerManager
import SimpleServ.RequestProcessing.TcpConnection
import SimpleServ.Server.RequestString
import SimpleServ.Utility.SearchRounds
import SimpleServ.Cache
import SimpleServ.RequestProcessing.HttpPool
import SimpleServ.RequestProcessing.TlsPool
import SimpleServ.Server.HttpService
import SimpleServ.Server.Main
import SimpleServ.RequestProcessing.PoolProgress
import SimpleServ.Http.RequestHandler
import SimpleServ.Utility.UrlQuery
import SimpleServ.Server.HttpProgress
import SimpleServ.Http.Site
import SimpleServ.Server.TlsService
